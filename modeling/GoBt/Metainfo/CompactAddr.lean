/-
**Compact addresses** (`metainfo/addr_compact.go`).

An IP and a port as 6 or 18 bytes.
-/

import GoBt.Krpc.Addr
import GoBt.Lib.BigEndian

namespace GoBt.Metainfo

open GoBt.Lib GoBt.Krpc

structure CompactAddr where
  ip : Ip
  port : UInt16
  deriving DecidableEq

namespace CompactAddr

/-- `a.WriteBinary(w)`: what is written. -/
def writeBinary (a : CompactAddr) : List UInt8 := a.ip ++ bePut 2 a.port.toNat

def unmarshalBinary (data : List UInt8) : Except GoError CompactAddr :=
  if data.length = 4 + 2 ∨ data.length = 16 + 2 then
    .ok ⟨data.take (data.length - 2), beUInt16 (data.drop (data.length - 2))⟩
  else .error (.other "invalid compact ip-address/port info")

theorem unmarshalBinary_writeBinary (a : CompactAddr)
    (family : a.ip.length = 4 ∨ a.ip.length = 16) :
    unmarshalBinary a.writeBinary = .ok a := by
  have size : a.writeBinary.length = a.ip.length + 2 := by
    rw [writeBinary, List.length_append, length_bePut]
  have fits : a.writeBinary.length = 4 + 2 ∨ a.writeBinary.length = 16 + 2 := by omega
  rw [unmarshalBinary, if_pos fits, size, Nat.add_sub_cancel, writeBinary, List.take_left,
    List.drop_left, beUInt16_bePut]

end CompactAddr

end GoBt.Metainfo
