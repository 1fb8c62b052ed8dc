/-
**IP addresses and the addresses of nodes.**

* `Ip` — `net.IP`: a byte slice of length 4 or 16, or of any other length when it is invalid;
  `ip.to4`, `ip.equal` and `ip.string` follow the documentation of `net.IP`.
* `Addr` — `krpc.Addr` without its `Orig` field, which only remembers the socket address the same
  IP and port came from.
* `Addr.string` — the text under which the managers of the DHT server file an address.
-/

import GoBt.Go.Encoding

namespace GoBt.Krpc

abbrev Ip := List UInt8

/-- The twelve bytes before an IPv4 address mapped into IPv6. -/
def v4InV6Prefix : List UInt8 := [0, 0, 0, 0, 0, 0, 0, 0, 0, 0, 0xff, 0xff]

/-- `ip.To4()`; `none` is the nil slice. -/
def Ip.to4 (ip : Ip) : Option Ip :=
  if ip.length = 4 then some ip
  else if ip.length = 16 ∧ ip.take 12 = v4InV6Prefix then some (ip.drop 12)
  else none

/-- `ip.To16()`; `none` is the nil slice. -/
def Ip.to16 (ip : Ip) : Option Ip :=
  if ip.length = 4 then some (v4InV6Prefix ++ ip)
  else if ip.length = 16 then some ip
  else none

/-- `ip.Equal(x)`: an IPv4 address and the same address mapped into IPv6 are equal. -/
def Ip.equal (ip x : Ip) : Bool :=
  if ip.length = x.length then ip == x
  else if ip.length = 4 ∧ x.length = 16 then x.take 12 == v4InV6Prefix && ip == x.drop 12
  else if ip.length = 16 ∧ x.length = 4 then ip.take 12 == v4InV6Prefix && ip.drop 12 == x
  else false

section Forms

variable {ip form : Ip}

theorem Ip.length_to4 (found : ip.to4 = some form) : form.length = 4 := by
  unfold Ip.to4 at found
  split at found
  · rename_i size
    cases found
    exact size
  · split at found
    · rename_i mapped
      cases found
      rw [List.length_drop, mapped.1]
    · cases found

theorem Ip.length_to16 (found : ip.to16 = some form) : form.length = 16 := by
  unfold Ip.to16 at found
  split at found
  · rename_i size
    cases found
    rw [List.length_append, size]
    rfl
  · split at found
    · rename_i size
      cases found
      exact size
    · cases found

theorem Ip.equal_to4 (found : ip.to4 = some form) : ip.equal form = true := by
  unfold Ip.to4 at found
  split at found
  · cases found
    simp [Ip.equal]
  · split at found
    · rename_i mapped
      cases found
      simp [Ip.equal, mapped]
    · cases found

theorem Ip.equal_to16 (found : ip.to16 = some form) : ip.equal form = true := by
  unfold Ip.to16 at found
  split at found
  · rename_i size
    cases found
    simp [Ip.equal, size, v4InV6Prefix]
  · split at found
    · cases found
      simp [Ip.equal]
    · cases found

end Forms

/-- The server's test for an IPv6 address: everything without a 4-byte form. -/
def isIPv6 (ip : Ip) : Bool := ip.to4.isNone

/-! ### Text -/

/-- The pieces with the separator between them, as `strings.Join` does. -/
def joinWith (separator : GoString) : List GoString → GoString
  | [] => []
  | [piece] => piece
  | piece :: rest => piece ++ separator ++ joinWith separator rest

/-- The 16-bit groups of an IPv6 address. -/
def ipGroups : List UInt8 → List Nat
  | high :: low :: rest => (high.toNat * 256 + low.toNat) :: ipGroups rest
  | _ => []

/-- The length of the run of zero groups at the front. -/
def zeroRun (groups : List Nat) : Nat := (groups.takeWhile (· == 0)).length

/-- The start and the end of the first longest run of at least two zero groups; `none` if there is
no such run. -/
def longestZeroRun (groups : List Nat) : Option (Nat × Nat) :=
  (List.range groups.length).foldl (fun best i =>
    let run := zeroRun (groups.drop i)
    if 2 ≤ run ∧ (best.elim 0 fun found => found.2 - found.1) < run then some (i, i + run)
    else best) none

/-- The text of an IPv6 address: groups in hexadecimal, the longest run of zeros as `::`. -/
def ipv6String (ip : Ip) : GoString :=
  let groups := ipGroups ip
  let text := fun part : List Nat => joinWith (str ":") (part.map (numeral 16))
  match longestZeroRun groups with
  | some (start, stop) => text (groups.take start) ++ str "::" ++ text (groups.drop stop)
  | none => text groups

def Ip.string (ip : Ip) : GoString :=
  if ip.length = 0 then str "<nil>"
  else if ip.length ≠ 4 ∧ ip.length ≠ 16 then str "?" ++ Hex.encode ip
  else match ip.to4 with
    | some v4 => joinWith (str ".") (v4.map fun byte => numeral 10 byte.toNat)
    | none => ipv6String ip

/-- `net.JoinHostPort`: a host with a colon goes into brackets. -/
def joinHostPort (host port : GoString) : GoString :=
  if (58 : UInt8) ∈ host then str "[" ++ host ++ str "]:" ++ port
  else host ++ str ":" ++ port

/-! ### Addresses -/

structure Addr where
  ip : Ip
  port : UInt16
  deriving DecidableEq

def Addr.equal (a o : Addr) : Bool := a.port == o.port && a.ip.equal o.ip

def Addr.string (a : Addr) : GoString :=
  if a.port = 0 then a.ip.string
  else joinHostPort a.ip.string (numeral 10 a.port.toNat)

example : (Addr.mk [127, 0, 0, 1] 6881).string = str "127.0.0.1:6881" := by decide

example : (Addr.mk [0x20, 1, 0xd, 0xb8, 0, 0, 0, 0, 0, 0, 0, 0, 0, 0, 0, 1] 80).string =
    str "[2001:db8::1]:80" := by decide

end GoBt.Krpc
