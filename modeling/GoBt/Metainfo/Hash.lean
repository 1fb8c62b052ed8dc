/-
**The 20-byte hash.**

`Hash` carries the proof that it has 20 bytes. It names nodes of the swarm, torrents and pieces.
-/

import GoBt.Go.Basic
import GoBt.Lib.Window

namespace GoBt.Metainfo

open GoBt.Lib

def hashSize : Nat := 20

/-- A hash: 20 bytes. -/
structure Hash where
  bytes : List UInt8
  size : bytes.length = hashSize
  deriving DecidableEq

theorem Hash.ext {first second : Hash} (same : first.bytes = second.bytes) : first = second := by
  cases first
  cases second
  cases same
  rfl

/-- The hash whose bytes are all `byte`. -/
def Hash.fill (byte : UInt8) : Hash := ⟨List.replicate hashSize byte, List.length_replicate⟩

def zeroHash : Hash := Hash.fill 0

def Hash.isZero (h : Hash) : Bool := h == zeroHash

/-- `copy(h[:], bytes)` into a new hash. -/
def Hash.copyFrom (bytes : List UInt8) : Hash :=
  ⟨(bytes ++ List.replicate hashSize 0).take hashSize, by
    rw [List.length_take, List.length_append, List.length_replicate]
    omega⟩

theorem Hash.bytes_copyFrom {bytes : List UInt8} (size : bytes.length = hashSize) :
    (Hash.copyFrom bytes).bytes = bytes :=
  List.take_left' size

@[simp] theorem Hash.copyFrom_bytes (h : Hash) : Hash.copyFrom h.bytes = h :=
  Hash.ext (Hash.bytes_copyFrom h.size)

def newHash (b : Window UInt8) : Except Panic Hash := do
  let bytes ← b.read 0 hashSize
  return Hash.copyFrom bytes

def Hash.xor (h o : Hash) : Hash :=
  ⟨List.zipWith (· ^^^ ·) h.bytes o.bytes, by rw [List.length_zipWith, h.size, o.size, min_self]⟩

/-- `Hashes.Contains`. -/
def hashesContain (hs : List Hash) (h : Hash) : Bool := hs.any fun other => h == other

theorem hashesContain_iff {hs : List Hash} {h : Hash} : hashesContain hs h = true ↔ h ∈ hs := by
  simp [hashesContain]

end GoBt.Metainfo
