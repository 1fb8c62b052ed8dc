/-
**The announce request of the HTTP tracker** (`tracker/httptracker/http.go`).

The request is the query of a URL. Its numbers are written and read with 64 bits, and converted from
and to the widths of the fields.

* `toQuery`, `fromQuery` — the source's functions; a failed `fromQuery` leaves the fields that were
  read before.
* `Writes`, `writes_toQuery` — what stands in the query of a request.
* `Reads`, `fromQuery_eq_ok_iff` — when `fromQuery` returns a request, and which.
* **`fromQuery_toQuery`** — every request is read back.
* **`integers_kept_iff`** — the numbers in the query are those of the request exactly if the number of
  peers wanted is not negative, and those of a request that is read are the ones in the query exactly
  if they fit into the fields.
-/

import GoBt.Go.Query
import GoBt.Go.Strconv
import GoBt.Metainfo.HashString

namespace GoBt.Tracker.Http

open GoBt.Lib GoBt.Metainfo GoBt.Bencode
open GoBt.Url (Values)

/-! ### Requests -/

structure AnnounceRequest where
  infoHash : Hash := zeroHash
  peerID : Hash := zeroHash
  uploaded : Int64 := 0
  downloaded : Int64 := 0
  left : Int64 := 0
  port : UInt16 := 0
  ip : GoString := []
  event : UInt32 := 0
  compact : Bool := false
  numWant : Int32 := 0
  key : Int32 := 0
  deriving DecidableEq

/-- The errors of `FromQuery`: those of a hash, and of `strconv` with the function and the text. -/
inductive QueryError
  | hash (fault : Fault)
  | number (func : String) (text : GoString) (err : NumError)
  deriving DecidableEq

namespace AnnounceRequest

def toQuery (r : AnnounceRequest) : Values :=
  let vs := (∅ : Values).set (str "info_hash") r.infoHash.bytes
  let vs := vs.set (str "peer_id") r.peerID.bytes
  let vs := vs.set (str "uploaded") (formatInt r.uploaded.toInt)
  let vs := vs.set (str "downloaded") (formatInt r.downloaded.toInt)
  let vs := vs.set (str "left") (formatInt r.left.toInt)
  let vs := vs.setIf (r.ip ≠ []) (str "ip") r.ip
  let vs := vs.setIf (0 < r.event) (str "event") (formatInt r.event.toNat)
  let vs := vs.setIf (0 < r.port) (str "port") (numeral 10 r.port.toNat)
  -- `uint64(r.NumWant)` extends the sign.
  let vs := vs.setIf (r.numWant ≠ 0) (str "numwant") (numeral 10 r.numWant.toInt64.toUInt64.toNat)
  let vs := vs.setIf (r.key ≠ 0) (str "key") (formatInt r.key.toInt)
  vs.set (str "compact") (if r.compact then str "1" else str "0")

/-- What a step of `FromQuery` returns: the request, or an error with the request as it is then. -/
abbrev Step := Except (QueryError × AnnounceRequest) AnnounceRequest

def readHash (lib : HashText) (s : GoString) (old : Hash) (put : Hash → AnnounceRequest) : Step :=
  match old.fromString lib s with
  | (h, none) => .ok (put h)
  | (h, some fault) => .error (.hash fault, put h)

/-- `strconv.ParseInt(s, 10, 64)`, and the number is put into the request. -/
def readInt (s : GoString) (r : AnnounceRequest) (put : Int → AnnounceRequest) : Step :=
  match parseInt s 64 with
  | .ok v => .ok (put v)
  | .error err => .error (.number "ParseInt" s err, r)

/-- `strconv.ParseUint(s, 10, 64)`, and the number is put into the request. -/
def readUint (s : GoString) (r : AnnounceRequest) (put : Nat → AnnounceRequest) : Step :=
  match parseUint s 64 with
  | .ok v => .ok (put v)
  | .error err => .error (.number "ParseUint" s err, r)

/-- A parameter that may be missing. -/
def ifGiven (s : GoString) (r : AnnounceRequest) (read : Step) : Step :=
  if s ≠ [] then read else .ok r

/-- The switch over the parameter `compact`. -/
def compactOr (old : Bool) (s : GoString) : Bool :=
  if s = str "1" then true else if s = str "0" then false else old

def fromQuery (lib : HashText) (vs : Values) (r : AnnounceRequest) : Step := do
  let r ← readHash lib (vs.get (str "info_hash")) r.infoHash fun h => { r with infoHash := h }
  let r ← readHash lib (vs.get (str "peer_id")) r.peerID fun h => { r with peerID := h }
  let r ← readInt (vs.get (str "uploaded")) r fun v => { r with uploaded := .ofInt v }
  let r ← readInt (vs.get (str "downloaded")) r fun v => { r with downloaded := .ofInt v }
  let r ← readInt (vs.get (str "left")) r fun v => { r with left := .ofInt v }
  let s := vs.get (str "event")
  let r ← ifGiven s r (readUint s r fun v => { r with event := .ofNat v })
  let s := vs.get (str "port")
  let r ← ifGiven s r (readUint s r fun v => { r with port := .ofNat v })
  let s := vs.get (str "numwant")
  let r ← ifGiven s r (readUint s r fun v => { r with numWant := .ofNat v })
  let s := vs.get (str "key")
  let r ← ifGiven s r (readInt s r fun v => { r with key := .ofInt v })
  return { r with ip := vs.get (str "ip"), compact := compactOr r.compact (vs.get (str "compact")) }

/-! ### What is written -/

/-- The query holds the parameters of the request. -/
structure Writes (r : AnnounceRequest) (vs : Values) : Prop where
  infoHash : vs.list (str "info_hash") = [r.infoHash.bytes]
  peerID : vs.list (str "peer_id") = [r.peerID.bytes]
  uploaded : vs.list (str "uploaded") = [formatInt r.uploaded.toInt]
  downloaded : vs.list (str "downloaded") = [formatInt r.downloaded.toInt]
  left : vs.list (str "left") = [formatInt r.left.toInt]
  ip : vs.list (str "ip") = if r.ip ≠ [] then [r.ip] else []
  event : vs.list (str "event") = if 0 < r.event then [formatInt r.event.toNat] else []
  port : vs.list (str "port") = if 0 < r.port then [numeral 10 r.port.toNat] else []
  numWant : vs.list (str "numwant") =
    if r.numWant ≠ 0 then [numeral 10 r.numWant.toInt64.toUInt64.toNat] else []
  key : vs.list (str "key") = if r.key ≠ 0 then [formatInt r.key.toInt] else []
  compact : vs.list (str "compact") = [if r.compact then str "1" else str "0"]

theorem writes_toQuery (r : AnnounceRequest) : Writes r r.toQuery := by
  constructor <;> rw [toQuery] <;>
    simp +decide only [Values.list_set, Values.list_setIf, if_true, if_false] <;> rfl

/-! ### What is read -/

/-- A number that may be missing: the old one, or what is made of the number in the text. -/
def Given {α β : Type} (parsed : Except NumError α) (of : α → β) (s : GoString) (old new : β) : Prop :=
  if s = [] then new = old else ∃ v, parsed = .ok v ∧ new = of v

/-- **The request `r` that is read from a query over the request `z`.** -/
structure Reads (lib : HashText) (vs : Values) (z r : AnnounceRequest) : Prop where
  infoHash : z.infoHash.fromString lib (vs.get (str "info_hash")) = (r.infoHash, none)
  peerID : z.peerID.fromString lib (vs.get (str "peer_id")) = (r.peerID, none)
  uploaded : ∃ v, parseInt (vs.get (str "uploaded")) 64 = .ok v ∧ r.uploaded = .ofInt v
  downloaded : ∃ v, parseInt (vs.get (str "downloaded")) 64 = .ok v ∧ r.downloaded = .ofInt v
  left : ∃ v, parseInt (vs.get (str "left")) 64 = .ok v ∧ r.left = .ofInt v
  event : Given (parseUint (vs.get (str "event")) 64) .ofNat (vs.get (str "event")) z.event r.event
  port : Given (parseUint (vs.get (str "port")) 64) .ofNat (vs.get (str "port")) z.port r.port
  numWant : Given (parseUint (vs.get (str "numwant")) 64) .ofNat (vs.get (str "numwant")) z.numWant
    r.numWant
  key : Given (parseInt (vs.get (str "key")) 64) .ofInt (vs.get (str "key")) z.key r.key
  ip : r.ip = vs.get (str "ip")
  compact : r.compact = compactOr z.compact (vs.get (str "compact"))

section Steps

variable {lib : HashText} {s : GoString} {r r' : AnnounceRequest}

theorem readHash_eq_ok_iff {old : Hash} {put : Hash → AnnounceRequest} :
    readHash lib s old put = .ok r' ↔ ∃ h, old.fromString lib s = (h, none) ∧ put h = r' := by
  unfold readHash
  split <;> simp_all

theorem readInt_eq_ok_iff {put : Int → AnnounceRequest} :
    readInt s r put = .ok r' ↔ ∃ v, parseInt s 64 = .ok v ∧ put v = r' := by
  unfold readInt
  split <;> simp_all

theorem readUint_eq_ok_iff {put : Nat → AnnounceRequest} :
    readUint s r put = .ok r' ↔ ∃ v, parseUint s 64 = .ok v ∧ put v = r' := by
  unfold readUint
  split <;> simp_all

theorem ifGiven_eq_ok_iff {α β : Type} {parsed : Except NumError α} {of : α → β} {old : β}
    (put : AnnounceRequest → β → AnnounceRequest) {read : Step} (same : put r old = r)
    (reads : read = .ok r' ↔ ∃ v, parsed = .ok v ∧ put r (of v) = r') :
    ifGiven s r read = .ok r' ↔ ∃ new, Given parsed of s old new ∧ put r new = r' := by
  unfold ifGiven Given
  by_cases missing : s = []
  · simp [missing, same]
  · rw [if_pos missing, reads]
    simp only [if_neg missing]
    constructor
    · rintro ⟨v, fine, eq⟩
      exact ⟨of v, ⟨v, fine, rfl⟩, eq⟩
    · rintro ⟨_, ⟨v, fine, rfl⟩, eq⟩
      exact ⟨v, fine, eq⟩

end Steps

/-- **When `FromQuery` succeeds**, and with which request. -/
theorem fromQuery_eq_ok_iff {lib : HashText} {vs : Values} {z r : AnnounceRequest} :
    fromQuery lib vs z = .ok r ↔ Reads lib vs z r := by
  let putEvent : AnnounceRequest → UInt32 → AnnounceRequest := fun r new => { r with event := new }
  let putPort : AnnounceRequest → UInt16 → AnnounceRequest := fun r new => { r with port := new }
  let putNumWant : AnnounceRequest → Int32 → AnnounceRequest := fun r new => { r with numWant := new }
  let putKey : AnnounceRequest → Int32 → AnnounceRequest := fun r new => { r with key := new }
  constructor
  · intro returns
    obtain ⟨_, step, returns⟩ := bind_eq_ok_iff.mp returns
    obtain ⟨_, infoHash, rfl⟩ := readHash_eq_ok_iff.mp step
    obtain ⟨_, step, returns⟩ := bind_eq_ok_iff.mp returns
    obtain ⟨_, peerID, rfl⟩ := readHash_eq_ok_iff.mp step
    obtain ⟨_, step, returns⟩ := bind_eq_ok_iff.mp returns
    obtain ⟨_, uploaded, rfl⟩ := readInt_eq_ok_iff.mp step
    obtain ⟨_, step, returns⟩ := bind_eq_ok_iff.mp returns
    obtain ⟨_, downloaded, rfl⟩ := readInt_eq_ok_iff.mp step
    obtain ⟨_, step, returns⟩ := bind_eq_ok_iff.mp returns
    obtain ⟨_, left, rfl⟩ := readInt_eq_ok_iff.mp step
    obtain ⟨_, step, returns⟩ := bind_eq_ok_iff.mp returns
    obtain ⟨_, event, rfl⟩ := (ifGiven_eq_ok_iff putEvent rfl readUint_eq_ok_iff).mp step
    obtain ⟨_, step, returns⟩ := bind_eq_ok_iff.mp returns
    obtain ⟨_, port, rfl⟩ := (ifGiven_eq_ok_iff putPort rfl readUint_eq_ok_iff).mp step
    obtain ⟨_, step, returns⟩ := bind_eq_ok_iff.mp returns
    obtain ⟨_, numWant, rfl⟩ := (ifGiven_eq_ok_iff putNumWant rfl readUint_eq_ok_iff).mp step
    obtain ⟨_, step, returns⟩ := bind_eq_ok_iff.mp returns
    obtain ⟨_, key, rfl⟩ := (ifGiven_eq_ok_iff putKey rfl readInt_eq_ok_iff).mp step
    cases returns
    exact ⟨infoHash, peerID, ⟨_, uploaded, rfl⟩, ⟨_, downloaded, rfl⟩, ⟨_, left, rfl⟩, event, port,
      numWant, key, rfl, rfl⟩
  · rintro ⟨infoHash, peerID, ⟨_, uploaded, sameUploaded⟩, ⟨_, downloaded, sameDownloaded⟩,
      ⟨_, left, sameLeft⟩, event, port, numWant, key, ip, compact⟩
    refine bind_eq_ok_iff.mpr ⟨_, readHash_eq_ok_iff.mpr ⟨_, infoHash, rfl⟩, ?_⟩
    refine bind_eq_ok_iff.mpr ⟨_, readHash_eq_ok_iff.mpr ⟨_, peerID, rfl⟩, ?_⟩
    refine bind_eq_ok_iff.mpr ⟨_, readInt_eq_ok_iff.mpr ⟨_, uploaded, rfl⟩, ?_⟩
    refine bind_eq_ok_iff.mpr ⟨_, readInt_eq_ok_iff.mpr ⟨_, downloaded, rfl⟩, ?_⟩
    refine bind_eq_ok_iff.mpr ⟨_, readInt_eq_ok_iff.mpr ⟨_, left, rfl⟩, ?_⟩
    refine bind_eq_ok_iff.mpr
      ⟨_, (ifGiven_eq_ok_iff putEvent rfl readUint_eq_ok_iff).mpr ⟨_, event, rfl⟩, ?_⟩
    refine bind_eq_ok_iff.mpr
      ⟨_, (ifGiven_eq_ok_iff putPort rfl readUint_eq_ok_iff).mpr ⟨_, port, rfl⟩, ?_⟩
    refine bind_eq_ok_iff.mpr
      ⟨_, (ifGiven_eq_ok_iff putNumWant rfl readUint_eq_ok_iff).mpr ⟨_, numWant, rfl⟩, ?_⟩
    refine bind_eq_ok_iff.mpr
      ⟨_, (ifGiven_eq_ok_iff putKey rfl readInt_eq_ok_iff).mpr ⟨_, key, rfl⟩, ?_⟩
    refine congrArg Except.ok ?_
    cases r
    simp only at sameUploaded sameDownloaded sameLeft ip compact
    simp only [putEvent, putPort, putNumWant, putKey, sameUploaded, sameDownloaded, sameLeft, ip, compact]

/-! ### The round trip -/

section RoundTrip

variable {vs : Values} {key text : GoString}

theorem get_of_list (written : vs.list key = [text]) : vs.get key = text := by
  rw [Values.get, written]
  rfl

theorem given_of_list {α β : Type} (parse : GoString → Except NumError α) {of : α → β} {old new : β}
    {v : α} {cond : Prop} [Decidable cond] (written : vs.list key = if cond then [text] else [])
    (some' : text ≠ []) (parsed : parse text = .ok v) (back : of v = new) (zero : ¬ cond → new = old) :
    Given (parse (vs.get key)) of (vs.get key) old new := by
  unfold Given
  by_cases given : cond
  · rw [if_pos given] at written
    rw [get_of_list written, if_neg some']
    exact ⟨v, parsed, back.symm⟩
  · rw [if_neg given] at written
    rw [show vs.get key = [] by rw [Values.get, written]; rfl, if_pos rfl]
    exact zero given

end RoundTrip

theorem toNat_toUInt64 (n : Int32) : (n.toInt64.toUInt64.toNat : Int) = n.toInt % 2 ^ 64 := by
  have value : n.toInt64.toBitVec.toInt = n.toInt := n.toInt_toInt64
  have small := n.toInt64.toBitVec.isLt
  rw [BitVec.toInt_eq_toNat_bmod] at value
  show (n.toInt64.toBitVec.toNat : Int) = _
  rw [← value, Int.bmod_def]
  split <;> omega

theorem ofNat_toUInt64 (n : Int32) : Int32.ofNat n.toInt64.toUInt64.toNat = n := by
  have low := n.le_toInt
  have high := n.toInt_lt
  rw [← Int32.toInt_inj, Int32.toInt_ofNat', toNat_toUInt64, show Int32.size = 4294967296 from rfl,
    Int.bmod_def]
  split <;> omega

theorem parseInt_int64 (n : Int64) : parseInt (formatInt n.toInt) 64 = .ok n.toInt :=
  parseInt_formatInt n.le_toInt n.toInt_lt (by decide)

theorem parseInt_int32 (n : Int32) : parseInt (formatInt n.toInt) 64 = .ok n.toInt := by
  have low := n.le_toInt
  have high := n.toInt_lt
  exact parseInt_formatInt (by omega) (by omega) (by decide)

/-- **Every request is read back from its query.** -/
theorem fromQuery_toQuery (lib : HashText) (r : AnnounceRequest) :
    fromQuery lib r.toQuery {} = .ok r := by
  have written := writes_toQuery r
  have hash : ∀ z h : Hash, z.fromString lib h.bytes = (h, none) := fun z h => by
    rw [Hash.fromString, if_pos h.size, Hash.copyOver_of_size]
  refine fromQuery_eq_ok_iff.mpr
    { infoHash := by rw [get_of_list written.infoHash, hash]
      peerID := by rw [get_of_list written.peerID, hash]
      uploaded := ⟨_, by rw [get_of_list written.uploaded, parseInt_int64], (Int64.ofInt_toInt _).symm⟩
      downloaded :=
        ⟨_, by rw [get_of_list written.downloaded, parseInt_int64], (Int64.ofInt_toInt _).symm⟩
      left := ⟨_, by rw [get_of_list written.left, parseInt_int64], (Int64.ofInt_toInt _).symm⟩
      event := ?_
      port := ?_
      numWant := ?_
      key := ?_
      ip := ?_
      compact := ?_ }
  · have event := written.event
    rw [formatInt_natCast] at event
    refine given_of_list (parseUint · 64) event (numeral_ne_nil _) (parseUint_numeral ?_)
      UInt32.ofNat_toNat fun zero => ?_
    · have := r.event.toNat_lt
      omega
    · exact UInt32.le_antisymm (UInt32.not_lt.mp zero) UInt32.zero_le
  · refine given_of_list (parseUint · 64) written.port (numeral_ne_nil _) (parseUint_numeral ?_)
      UInt16.ofNat_toNat fun zero => ?_
    · have := r.port.toNat_lt
      omega
    · exact UInt16.le_antisymm (UInt16.not_lt.mp zero) UInt16.zero_le
  · exact given_of_list (parseUint · 64) written.numWant (numeral_ne_nil _)
      (parseUint_numeral (UInt64.toNat_lt _)) (ofNat_toUInt64 _) not_not.mp
  · exact given_of_list (parseInt · 64) written.key (formatInt_ne_nil _) (parseInt_int32 _)
      (Int32.ofInt_toInt _) not_not.mp
  · rw [Values.get, written.ip]
    by_cases empty : r.ip = []
    · rw [if_neg (not_not.mpr empty), empty]
      rfl
    · rw [if_pos empty]
      rfl
  · rw [get_of_list written.compact]
    cases r.compact <;> decide

/-! ### The numbers in the query -/

/-- The integers of a request, with the names of their parameters. -/
def integers (r : AnnounceRequest) : List (GoString × Int) :=
  [(str "uploaded", r.uploaded.toInt), (str "downloaded", r.downloaded.toInt),
    (str "left", r.left.toInt), (str "event", r.event.toNat), (str "port", r.port.toNat),
    (str "numwant", r.numWant.toInt), (str "key", r.key.toInt)]

/-- Every integer that `ToQuery` writes is the decimal numeral of the field. -/
def WritesIntegers (r : AnnounceRequest) : Prop :=
  ∀ p ∈ r.integers, ∀ text ∈ r.toQuery.list p.1, text = formatInt p.2

/-- Every integer of the request is the one that the query gives for it. -/
def HasIntegers (r : AnnounceRequest) (vs : Values) : Prop :=
  ∀ p ∈ r.integers, vs.get p.1 ≠ [] → p.2 = integerIn (vs.get p.1)

/-- The parameters whose fields have fewer than 64 bits, with the values that fit: from the first
number up to below the second. -/
def narrow : List (GoString × Int × Int) :=
  [(str "event", 0, 2 ^ 32), (str "port", 0, 2 ^ 16), (str "numwant", -2 ^ 31, 2 ^ 31),
    (str "key", -2 ^ 31, 2 ^ 31)]

/-- The numbers in the query fit into the fields. -/
def Fits (vs : Values) : Prop :=
  ∀ p ∈ narrow, vs.get p.1 ≠ [] → p.2.1 ≤ integerIn (vs.get p.1) ∧ integerIn (vs.get p.1) < p.2.2

theorem eq_of_mem_optional {cond : Prop} [Decidable cond] {text text' : GoString}
    (member : text' ∈ if cond then [text] else []) : text' = text := by
  split at member
  · exact List.mem_singleton.mp member
  · cases member

theorem writesIntegers_iff (r : AnnounceRequest) : WritesIntegers r ↔ 0 ≤ r.numWant.toInt := by
  have written := writes_toQuery r
  simp only [WritesIntegers, integers, List.forall_mem_cons, written.uploaded, written.downloaded,
    written.left, written.event, written.port, written.numWant, written.key]
  constructor
  · rintro ⟨_, _, _, _, _, numWant, _⟩
    by_contra negative
    have some' : r.numWant ≠ 0 := fun zero => negative (by rw [zero]; decide)
    rw [if_pos some'] at numWant
    exact numeral_ne_formatInt (not_le.mp negative) _ (numWant _ List.mem_cons_self)
  · intro natural
    have high := r.numWant.toInt_lt
    have value := toNat_toUInt64 r.numWant
    refine ⟨?_, ?_, ?_, ?_, ?_, ?_, ?_, nofun⟩
    · simp
    · simp
    · simp
    · exact fun text member => eq_of_mem_optional member
    · intro text member
      rw [eq_of_mem_optional member, formatInt_natCast]
    · intro text member
      rw [eq_of_mem_optional member, ← formatInt_natCast, value]
      congr 1
      omega
    · exact fun text member => eq_of_mem_optional member

theorem given_kept_iff {α β : Type} {parsed : Except NumError α} {of : α → β} {s : GoString}
    {old new : β} {cast : α → Int} (low high : Int) (value : β → Int)
    (given : Given parsed of s old new) (means : ∀ v, parsed = .ok v → integerIn s = cast v)
    (fits : ∀ v, value (of v) = cast v ↔ low ≤ cast v ∧ cast v < high) :
    (s ≠ [] → value new = integerIn s) ↔ (s ≠ [] → low ≤ integerIn s ∧ integerIn s < high) := by
  refine forall_congr' fun some' => ?_
  unfold Given at given
  rw [if_neg some'] at given
  obtain ⟨v, parsed', rfl⟩ := given
  rw [means v parsed']
  exact fits v

theorem int64_kept {s : GoString} {n : Int64} (read : ∃ v, parseInt s 64 = .ok v ∧ n = .ofInt v) :
    n.toInt = integerIn s := by
  obtain ⟨v, parsed, rfl⟩ := read
  obtain ⟨low, high⟩ := parseInt_range parsed
  rw [integerIn_of_parseInt parsed, Int64.toInt_ofInt, show Int64.size = 2 ^ 64 from rfl]
  exact Int.bmod_eq_of_le (by omega) (by omega)

theorem toInt_ofInt_eq_iff (n : Int) :
    (Int32.ofInt n).toInt = n ↔ -2 ^ 31 ≤ n ∧ n < 2 ^ 31 := by
  rw [Int32.toInt_ofInt, show Int32.size = 4294967296 from rfl, Int.bmod_def]
  split <;> omega

theorem toInt_ofNat_eq_iff (n : Nat) :
    (Int32.ofNat n).toInt = n ↔ -2 ^ 31 ≤ (n : Int) ∧ (n : Int) < 2 ^ 31 :=
  toInt_ofInt_eq_iff n

theorem Reads.hasIntegers_iff {lib : HashText} {vs : Values} {z r : AnnounceRequest}
    (reads : Reads lib vs z r) : HasIntegers r vs ↔ Fits vs := by
  have event := given_kept_iff 0 (2 ^ 32) (fun n : UInt32 => n.toNat) reads.event
    (fun v => integerIn_of_parseUint) fun v => by
      rw [UInt32.toNat_ofNat']
      omega
  have port := given_kept_iff 0 (2 ^ 16) (fun n : UInt16 => n.toNat) reads.port
    (fun v => integerIn_of_parseUint) fun v => by
      rw [UInt16.toNat_ofNat']
      omega
  have numWant := given_kept_iff (-2 ^ 31) (2 ^ 31) Int32.toInt reads.numWant
    (fun v => integerIn_of_parseUint) toInt_ofNat_eq_iff
  have key := given_kept_iff (-2 ^ 31) (2 ^ 31) Int32.toInt reads.key
    (fun v => integerIn_of_parseInt) toInt_ofInt_eq_iff
  simp only [HasIntegers, Fits, integers, narrow, List.forall_mem_cons]
  rw [event, port, numWant, key]
  constructor
  · rintro ⟨_, _, _, rest⟩
    exact ⟨rest.1, rest.2.1, rest.2.2.1, rest.2.2.2.1, nofun⟩
  · rintro ⟨event, port, numWant, key, _⟩
    exact ⟨fun _ => int64_kept reads.uploaded, fun _ => int64_kept reads.downloaded,
      fun _ => int64_kept reads.left, event, port, numWant, key, nofun⟩

/-- **When the integers mean what the query says.** -/
theorem integers_kept_iff (lib : HashText) :
    (∀ r : AnnounceRequest, WritesIntegers r ↔ 0 ≤ r.numWant.toInt) ∧
    ∀ (vs : Values) (z r : AnnounceRequest), fromQuery lib vs z = .ok r →
      (HasIntegers r vs ↔ Fits vs) :=
  ⟨writesIntegers_iff, fun _ _ _ returns => (fromQuery_eq_ok_iff.mp returns).hasIntegers_iff⟩

/-- The query of a request, with the port 65616. -/
def wrappedPort : Values := (toQuery {}).set (str "port") (str "65616")

/-- One peer less than none is asked for as 18446744073709551615, and the port 65616 is read as 80. -/
theorem integers_wrap :
    (toQuery { numWant := -1 }).list (str "numwant") = [str "18446744073709551615"] ∧
    fromQuery (standardText fun _ => zeroHash) wrappedPort {} = .ok { port := 80 } := by
  decide +kernel

end AnnounceRequest

end GoBt.Tracker.Http
