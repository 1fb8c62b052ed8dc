/-
**The messages of the UDP tracker protocol** (`tracker/udptracker/udp.go`).

* `AnnounceRequest`, `AnnounceResponse`, `ScrapeResponse`, `Extension` — with `encodeTo`, which
  returns the bytes written, and `decodeFrom`, which reads a slice and panics as the code does.
* `ExtensionTail bytes exts` — `bytes` is the encoding of `exts`, the last of which may be a lone
  type byte.
* `decodeExts_eq_ok_iff`, `decodeExts_of_overrun` — **the extension loop** returns on exactly these
  tails and panics on all others, whatever lies behind the slice in its array.
* `encodeTo_of_consistent` — **the round trip** of an announce request.
* `AnnounceResponse.decodeFrom_of_le`, `AnnounceResponse.decodeFrom_of_lt` — a response needs twelve
  bytes.
-/

import GoBt.Lib.BigEndian
import GoBt.Metainfo.CompactAddr
import GoBt.Metainfo.Hash

namespace GoBt.Tracker

open GoBt.Lib GoBt.Krpc GoBt.Metainfo

def maxBufSize : Nat := 2048

/-- The magic constant of a connect request. -/
def protocolID : UInt64 := 0x41727101980

def actionConnect : UInt32 := 0
def actionAnnounce : UInt32 := 1
def actionScrape : UInt32 := 2
def actionError : UInt32 := 3

/-! ### Extensions -/

/-- An extension of an announce request. -/
structure Extension where
  type : UInt8 := 0
  length : UInt8 := 0
  data : List UInt8 := []
  deriving DecidableEq

namespace Extension

/-- `e.EncodeTo(buf)`: a missing length is filled in. -/
def encodeTo (e : Extension) : Except Panic (List UInt8) :=
  let len := UInt8.ofNat e.data.length
  if e.length = 0 ∧ len ≠ 0 then .ok (e.type :: len :: e.data)
  else if len ≠ e.length then .error (.explicit (str "the length of data is inconsistent"))
  else .ok (e.type :: e.length :: e.data)

/-- `e.DecodeFrom(b)` on a zero extension: the extension and the number of bytes parsed. -/
def decodeFrom (b : Window UInt8) : Except Panic (Extension × Nat) :=
  match b.items with
  | [] => .ok ({}, 0)
  | [type] => .ok ({ type := type }, 1)
  | type :: length :: _ =>
      if 0 < length then do
        let parsed := 2 + length.toNat
        -- Bounded by the capacity: the data may reach behind the slice.
        let data ← b.read 2 parsed
        return ({ type := type, length := length, data := data }, parsed)
      else .ok ({ type := type, length := length }, 2)

end Extension

/-- The loop of `AnnounceRequest.DecodeFrom` over the extensions. Every round consumes a byte, so
the length of the slice is enough fuel. -/
def decodeExts : Nat → Window UInt8 → Except Panic (List Extension)
  | 0, _ => .ok []
  | fuel + 1, b =>
      if 0 < b.len then do
        let (ext, parsed) ← Extension.decodeFrom b
        let b ← b.tail parsed
        let rest ← decodeExts fuel b
        return ext :: rest
      else .ok []

/-- `bytes` encodes the extensions `exts`; after the last one a lone type byte may stand. -/
inductive ExtensionTail : List UInt8 → List Extension → Prop
  | nil : ExtensionTail [] []
  | lone (type : UInt8) : ExtensionTail [type] [{ type := type }]
  | cons (type length : UInt8) {data rest : List UInt8} {exts : List Extension}
      (size : data.length = length.toNat) (tail : ExtensionTail rest exts) :
      ExtensionTail (type :: length :: (data ++ rest))
        ({ type := type, length := length, data := data } :: exts)

theorem ExtensionTail.unique {bytes : List UInt8} {first second : List Extension}
    (one : ExtensionTail bytes first) (other : ExtensionTail bytes second) : first = second := by
  induction one generalizing second with
  | nil =>
    cases other
    rfl
  | lone type =>
    cases other
    rfl
  | @cons type length data rest exts size tail ih =>
    generalize whole : type :: length :: (data ++ rest) = bytes at other
    cases other with
    | nil => cases whole
    | lone => cases whole
    | @cons type' length' data' rest' exts' size' tail' =>
      simp only [List.cons.injEq] at whole
      obtain ⟨rfl, rfl, same⟩ := whole
      obtain ⟨rfl, rfl⟩ := List.append_inj same (size.trans size'.symm)
      rw [ih tail']

theorem Extension.decodeFrom_of_le {b : Window UInt8} {type length : UInt8} {more : List UInt8}
    (shows : b.items = type :: length :: more) (fits : length.toNat ≤ more.length) :
    decodeFrom b = .ok ({ type := type, length := length, data := more.take length.toNat },
      2 + length.toNat) := by
  have size : b.len = more.length + 2 := by rw [← b.length_items, shows]; rfl
  have data : b.read 2 (2 + length.toNat) = .ok (more.take length.toNat) := by
    rw [Window.read_of_le (by omega) (by omega), shows, cut, Nat.add_sub_cancel_left]
    rfl
  rw [decodeFrom, shows]
  by_cases some' : 0 < length
  · simp only [if_pos some', data]
    rfl
  · have zero : length = 0 := by simpa using some'
    simp [zero]

theorem Extension.decodeFrom_of_lt {b : Window UInt8} {type length : UInt8} {more : List UInt8}
    (shows : b.items = type :: length :: more) (overruns : more.length < length.toNat) :
    decodeFrom b = .error .bounds ∨ ∃ ext, decodeFrom b = .ok (ext, 2 + length.toNat) := by
  have some' : 0 < length := UInt8.lt_iff_toNat_lt.mpr (Nat.zero_lt_of_lt overruns)
  rw [decodeFrom, shows]
  simp only [if_pos some', Window.read, Window.slice]
  split
  · exact Or.inr ⟨_, rfl⟩
  · exact Or.inl rfl

theorem decodeExts_round {fuel parsed : Nat} {b rest : Window UInt8} {ext : Extension}
    (positive : 0 < b.len) (first : Extension.decodeFrom b = .ok (ext, parsed))
    (tail : b.tail parsed = .ok rest) :
    decodeExts (fuel + 1) b = (ext :: ·) <$> decodeExts fuel rest := by
  rw [decodeExts, if_pos positive, first]
  simp only [ok_bind, tail]
  cases decodeExts fuel rest <;> rfl

theorem ExtensionTail.cons_iff {type length : UInt8} {more : List UInt8} {exts : List Extension} :
    ExtensionTail (type :: length :: more) exts ↔ length.toNat ≤ more.length ∧
      ∃ rest, ExtensionTail (more.drop length.toNat) rest ∧
        exts = { type := type, length := length, data := more.take length.toNat } :: rest := by
  constructor
  · intro encodes
    generalize whole : type :: length :: more = bytes at encodes
    cases encodes with
    | nil => cases whole
    | lone => cases whole
    | @cons type' length' data rest exts size tail =>
      simp only [List.cons.injEq] at whole
      obtain ⟨rfl, rfl, rfl⟩ := whole
      rw [List.take_left' size, List.drop_left' size, List.length_append, ← size]
      exact ⟨Nat.le_add_right _ _, exts, tail, rfl⟩
  · rintro ⟨fits, rest, tail, rfl⟩
    have joined := ExtensionTail.cons type length (List.length_take_of_le fits) tail
    rwa [List.take_append_drop] at joined

/-- **What the extension loop does**: it returns the extensions that the slice encodes, and panics
if the slice encodes none. -/
theorem decodeExts_cases (fuel : Nat) (b : Window UInt8) (enough : b.len ≤ fuel) :
    (∃ exts, decodeExts fuel b = .ok exts ∧ ExtensionTail b.items exts) ∨
      (decodeExts fuel b = .error .bounds ∧ ∀ exts, ¬ ExtensionTail b.items exts) := by
  induction fuel generalizing b with
  | zero =>
    have empty : b.items = [] := List.length_eq_zero_iff.mp (by rw [b.length_items]; omega)
    exact Or.inl ⟨[], rfl, empty ▸ .nil⟩
  | succ fuel ih =>
    have size := b.length_items
    match shows : b.items with
    | [] =>
      rw [shows] at size
      rw [decodeExts, if_neg (by rw [← size]; exact lt_irrefl 0)]
      exact Or.inl ⟨[], rfl, .nil⟩
    | [type] =>
      rw [shows] at size
      have one : b.len = 1 := size.symm
      have first : Extension.decodeFrom b = .ok ({ type := type }, 1) := by
        rw [Extension.decodeFrom, shows]
      obtain ⟨rest, tail, left⟩ := Window.tail_of_le one.ge
      have last : decodeExts fuel rest = .ok [] := by
        have none' : rest.len = 0 := by rw [← rest.length_items, left, shows]; rfl
        cases fuel with
        | zero => rfl
        | succ fuel => rw [decodeExts, if_neg (by omega)]
      rw [decodeExts_round (by omega) first tail, last]
      exact Or.inl ⟨[{ type := type }], rfl, .lone type⟩
    | type :: length :: more =>
      rw [shows, List.length_cons, List.length_cons] at size
      by_cases fits : length.toNat ≤ more.length
      · have first := Extension.decodeFrom_of_le shows fits
        have inside : 2 + length.toNat ≤ b.len := by omega
        obtain ⟨rest, tail, left⟩ := Window.tail_of_le inside
        have remain : rest.items = more.drop length.toNat := by
          rw [left, shows, Nat.add_comm]
          rfl
        have fewer : rest.len ≤ fuel := by
          rw [← rest.length_items, remain, List.length_drop]
          omega
        rw [decodeExts_round (by omega) first tail]
        rcases ih rest fewer with ⟨exts, eq, encodes⟩ | ⟨eq, none'⟩
        · rw [eq]
          rw [remain] at encodes
          exact Or.inl ⟨_, rfl, ExtensionTail.cons_iff.mpr ⟨fits, exts, encodes, rfl⟩⟩
        · rw [eq]
          rw [remain] at none'
          refine Or.inr ⟨rfl, fun exts encodes => ?_⟩
          obtain ⟨_, tail', encodes', _⟩ := ExtensionTail.cons_iff.mp encodes
          exact none' tail' encodes'
      · refine Or.inr ⟨?_, fun exts encodes => fits (ExtensionTail.cons_iff.mp encodes).1⟩
        rw [decodeExts, if_pos (by omega)]
        rcases Extension.decodeFrom_of_lt shows (not_le.mp fits) with eq | ⟨ext, eq⟩
        · rw [eq]
          rfl
        · have past : b.tail (2 + length.toNat) = .error .bounds := Window.tail_of_lt (by omega)
          rw [eq, ok_bind]
          simp only [past, error_bind]

/-- **The extension loop returns exactly on the encodings of extensions.** -/
theorem decodeExts_eq_ok_iff {b : Window UInt8} {exts : List Extension} :
    decodeExts b.len b = .ok exts ↔ ExtensionTail b.items exts := by
  rcases decodeExts_cases b.len b le_rfl with ⟨exts', eq, encodes⟩ | ⟨eq, none'⟩
  · rw [eq, Except.ok.injEq]
    exact ⟨fun same => same ▸ encodes, encodes.unique⟩
  · rw [eq]
    exact iff_of_false (fun impossible => nomatch impossible) (none' exts)

/-- **On every other tail it panics**, whether the array reaches further or not. -/
theorem decodeExts_of_overrun {b : Window UInt8} (overruns : ∀ exts, ¬ ExtensionTail b.items exts) :
    decodeExts b.len b = .error .bounds := by
  rcases decodeExts_cases b.len b le_rfl with ⟨exts, _, encodes⟩ | ⟨eq, _⟩
  · exact absurd encodes (overruns exts)
  · exact eq

/-- `for _, ext := range exts { ext.EncodeTo(buf) }`. -/
def encodeExts : List Extension → Except Panic (List UInt8)
  | [] => .ok []
  | ext :: rest => do
      let first ← ext.encodeTo
      let last ← encodeExts rest
      return first ++ last

/-- An extension whose length field is the length of its data. -/
def Extension.Consistent (e : Extension) : Prop := e.data.length = e.length.toNat

theorem Extension.encodeTo_of_consistent {e : Extension} (consistent : e.Consistent) :
    e.encodeTo = .ok (e.type :: e.length :: e.data) := by
  have same : UInt8.ofNat e.data.length = e.length := by rw [consistent, UInt8.ofNat_toNat]
  simp only [encodeTo, same]
  rw [if_neg fun missing => missing.2 missing.1, if_neg fun different => different rfl]

/-- The bytes of extensions: two for each, and its data. -/
def extsSize (exts : List Extension) : Nat := (exts.map fun ext => 2 + ext.data.length).sum

theorem encodeExts_of_consistent {exts : List Extension}
    (consistent : ∀ ext ∈ exts, ext.Consistent) :
    ∃ bytes, encodeExts exts = .ok bytes ∧ ExtensionTail bytes exts ∧
      bytes.length = extsSize exts := by
  induction exts with
  | nil => exact ⟨[], rfl, .nil, rfl⟩
  | cons ext rest ih =>
    obtain ⟨here, later⟩ := List.forall_mem_cons.mp consistent
    obtain ⟨bytes, eq, encodes, size⟩ := ih later
    refine ⟨ext.type :: ext.length :: (ext.data ++ bytes), ?_, .cons _ _ here encodes, ?_⟩
    · rw [encodeExts, Extension.encodeTo_of_consistent here, eq]
      rfl
    · simp only [List.length_cons, List.length_append, size, extsSize, List.map_cons,
        List.sum_cons]
      omega

theorem encodeExts_ne_bounds (exts : List Extension) : encodeExts exts ≠ .error .bounds := by
  induction exts with
  | nil => exact fun impossible => nomatch impossible
  | cons ext rest ih =>
    refine bind_ne_error ?_ fun _ => bind_ne_error ih fun _ impossible => nomatch impossible
    unfold Extension.encodeTo
    dsimp only
    split_ifs <;> simp

/-! ### The header of a request -/

def cidOf (d : List UInt8) : UInt64 := beUInt64 (cut d 0 8)

def actionOf (d : List UInt8) : UInt32 := beUInt32 (cut d 8 12)

def tidOf (d : List UInt8) : UInt32 := beUInt32 (cut d 12 16)

def requestHeader (cid : UInt64) (action tid : UInt32) : List UInt8 :=
  bePut 8 cid.toNat ++ (bePut 4 action.toNat ++ bePut 4 tid.toNat)

section Header

variable (cid : UInt64) (action tid : UInt32) (body : List UInt8)

theorem length_requestHeader : (requestHeader cid action tid).length = 16 := by
  simp [requestHeader]

theorem cidOf_request : cidOf (requestHeader cid action tid ++ body) = cid := by
  rw [cidOf, requestHeader, List.append_assoc, cut_front (length_bePut _ _), beUInt64_bePut]

theorem actionOf_request : actionOf (requestHeader cid action tid ++ body) = action := by
  rw [actionOf, requestHeader, List.append_assoc, cut_skip (by simp), List.append_assoc,
    length_bePut, cut_front (length_bePut _ _), beUInt32_bePut]

theorem tidOf_request : tidOf (requestHeader cid action tid ++ body) = tid := by
  rw [tidOf, requestHeader, List.append_assoc, cut_skip (by simp), List.append_assoc,
    cut_skip (by simp)]
  simp only [length_bePut, Nat.reduceSub]
  rw [cut_front (length_bePut _ _), beUInt32_bePut]

theorem drop_requestHeader : (requestHeader cid action tid ++ body).drop 16 = body := by
  rw [drop_skip (by rw [length_requestHeader]), length_requestHeader, Nat.sub_self, List.drop_zero]

end Header

/-! ### Announce requests -/

/-- The announce request. -/
structure AnnounceRequest where
  infoHash : Hash
  peerID : Hash
  downloaded : Int64 := 0
  left : Int64 := 0
  uploaded : Int64 := 0
  event : UInt32 := 0
  key : Int32 := 0
  numWant : Int32 := 0
  port : UInt16 := 0
  exts : List Extension := []
  deriving DecidableEq

namespace AnnounceRequest

/-- `r.DecodeFrom(b)` on a zero request. -/
def decodeFrom (b : Window UInt8) : Except Panic AnnounceRequest := do
  let infoHash ← newHash (← b.slice 0 20)
  let peerID ← newHash (← b.slice 20 40)
  let downloaded := (beUInt64 (← b.read 40 48)).toInt64
  let left := (beUInt64 (← b.read 48 56)).toInt64
  let uploaded := (beUInt64 (← b.read 56 64)).toInt64
  let event := beUInt32 (← b.read 64 68)
  -- The four bytes from 68 on are ignored.
  let key := (beUInt32 (← b.read 72 76)).toInt32
  let numWant := (beUInt32 (← b.read 76 80)).toInt32
  let port := beUInt16 (← b.read 80 82)
  let rest ← b.tail 82
  let exts ← decodeExts rest.len rest
  return { infoHash, peerID, downloaded, left, uploaded, event, key, numWant, port, exts }

/-- The request that goes out: a number of peers that is not positive asks for the default. -/
def normalised (r : AnnounceRequest) : AnnounceRequest :=
  { r with numWant := if r.numWant ≤ 0 then -1 else r.numWant }

def encodeTo (r : AnnounceRequest) : Except Panic (List UInt8) := do
  let numWant := if r.numWant ≤ 0 then -1 else r.numWant
  let exts ← encodeExts r.exts
  return r.infoHash.bytes ++ (r.peerID.bytes ++
    (bePut 8 r.downloaded.toUInt64.toNat ++ (bePut 8 r.left.toUInt64.toNat ++
    (bePut 8 r.uploaded.toUInt64.toNat ++ (bePut 4 r.event.toNat ++ (bePut 4 0 ++
    (bePut 4 r.key.toUInt32.toNat ++ (bePut 4 numWant.toUInt32.toNat ++
    (bePut 2 r.port.toNat ++ exts)))))))))

/-- The request whose fields stand in `body`, in front of the extensions. -/
def ofBody (body : List UInt8) (exts : List Extension) : AnnounceRequest where
  infoHash := Hash.copyFrom (cut body 0 20)
  peerID := Hash.copyFrom (cut body 20 40)
  downloaded := (beUInt64 (cut body 40 48)).toInt64
  left := (beUInt64 (cut body 48 56)).toInt64
  uploaded := (beUInt64 (cut body 56 64)).toInt64
  event := beUInt32 (cut body 64 68)
  key := (beUInt32 (cut body 72 76)).toInt32
  numWant := (beUInt32 (cut body 76 80)).toInt32
  port := beUInt16 (cut body 80 82)
  exts := exts

end AnnounceRequest

theorem newHash_of_size {b : Window UInt8} (size : b.len = hashSize) :
    newHash b = .ok (Hash.copyFrom b.items) := by
  have whole : cut b.items 0 hashSize = b.items := by
    rw [cut, List.drop_zero, List.take_of_length_le]
    rw [b.length_items, size]
    rfl
  rw [newHash, Window.read_of_le (Nat.zero_le _) size.ge, whole]
  rfl

theorem newHash_slice {b : Window UInt8} {lo hi : Nat} (size : lo + hashSize = hi)
    (inside : hi ≤ b.len) :
    ∃ part, b.slice lo hi = .ok part ∧
      newHash part = .ok (Hash.copyFrom (cut b.items lo hi)) := by
  have ordered : lo ≤ hi := by omega
  obtain ⟨part, eq, shown⟩ := Window.slice_of_le ordered inside
  have whole : part.len = hashSize := by
    rw [← part.length_items, shown, length_cut (by rwa [b.length_items])]
    omega
  exact ⟨part, eq, shown ▸ newHash_of_size whole⟩

namespace AnnounceRequest

/-- **Decoding a body that is long enough** reads the fields and then the extensions. -/
theorem decodeFrom_of_le {b : Window UInt8} (long : 82 ≤ b.len) :
    ∃ rest : Window UInt8, rest.items = b.items.drop 82 ∧
      decodeFrom b = ofBody b.items <$> decodeExts rest.len rest := by
  obtain ⟨rest, tail, left⟩ := Window.tail_of_le long
  refine ⟨rest, left, ?_⟩
  have first : 20 ≤ b.len := by omega
  have second : 40 ≤ b.len := by omega
  obtain ⟨hashPart, hashEq, hash⟩ := newHash_slice (show 0 + hashSize = 20 from rfl) first
  obtain ⟨peerPart, peerEq, peer⟩ := newHash_slice (show 20 + hashSize = 40 from rfl) second
  have field : ∀ lo hi : Nat, lo ≤ hi → hi ≤ 82 → b.read lo hi = .ok (cut b.items lo hi) :=
    fun lo hi ordered inside => Window.read_of_le ordered (inside.trans long)
  rw [decodeFrom, hashEq, ok_bind, hash, ok_bind, peerEq, ok_bind, peer, ok_bind]
  simp (disch := decide) only [field, ok_bind, tail]
  cases decodeExts rest.len rest <;> rfl

theorem encodeTo_of_exts {r : AnnounceRequest} {tail : List UInt8}
    (eq : encodeExts r.exts = .ok tail) :
    ∃ bytes, r.encodeTo = .ok bytes ∧ bytes.length = 82 + tail.length ∧
      (∀ exts, ofBody bytes exts = { r.normalised with exts := exts }) ∧ bytes.drop 82 = tail := by
  have hash : r.infoHash.bytes.length = 20 := r.infoHash.size
  have peer : r.peerID.bytes.length = 20 := r.peerID.size
  refine ⟨_, by rw [encodeTo, eq, ok_bind]; rfl, ?_, fun exts => ?_, ?_⟩
  · simp only [List.length_append, length_bePut, hash, peer]
    omega
  · simp (disch := simp [hash, peer]) only [ofBody, cut_skip, cut_front, length_bePut, hash, peer,
      Nat.reduceSub, beUInt64_bePut, beUInt32_bePut, beUInt16_bePut, Hash.copyFrom_bytes]
    rfl
  · simp (disch := simp [hash, peer]) only [drop_skip, length_bePut, hash, peer, Nat.reduceSub,
      List.drop_zero]

theorem encodeTo_of_consistent {r : AnnounceRequest}
    (consistent : ∀ ext ∈ r.exts, ext.Consistent) :
    ∃ bytes, r.encodeTo = .ok bytes ∧ bytes.length = 82 + extsSize r.exts ∧
      ofBody bytes r.exts = r.normalised ∧ ExtensionTail (bytes.drop 82) r.exts := by
  obtain ⟨tail, eq, encodes, size⟩ := encodeExts_of_consistent consistent
  obtain ⟨bytes, encoded, length, fields, rest⟩ := encodeTo_of_exts eq
  exact ⟨bytes, encoded, by rw [length, size], fields r.exts, by rwa [rest]⟩

end AnnounceRequest

/-! ### Responses -/

/-- The answer to an announce request. -/
structure AnnounceResponse where
  interval : UInt32 := 0
  leechers : UInt32 := 0
  seeders : UInt32 := 0
  addresses : List CompactAddr := []
  deriving DecidableEq

namespace AnnounceResponse

/-- The body of the loop of `AnnounceResponse.EncodeTo`. -/
def encodeAddress (ipv4 : Bool) (addr : CompactAddr) : Except Panic (List UInt8) :=
  match if ipv4 then addr.ip.to4 else addr.ip.to16 with
  | none => .error (.explicit (str "invalid ip '" ++ addr.ip.string ++ str "'"))
  | some ip => .ok { addr with ip := ip }.writeBinary

def encodeTo (r : AnnounceResponse) (ipv4 : Bool) : Except Panic (List UInt8) := do
  let addresses ← r.addresses.mapM (encodeAddress ipv4)
  return bePut 4 r.interval.toNat ++ (bePut 4 r.leechers.toNat ++
    (bePut 4 r.seeders.toNat ++ addresses.flatten))

/-- The size of an address with its port. -/
def addressSize (ipv4 : Bool) : Nat := (if ipv4 then 4 else 16) + 2

/-- The body of the loop of `AnnounceResponse.DecodeFrom`. -/
def decodeAddress (b : Window UInt8) : Except Panic CompactAddr :=
  match CompactAddr.unmarshalBinary b.items with
  | .ok addr => .ok addr
  | .error err => .error (.explicit (str err.text))

/-- `r.DecodeFrom(b, ipv4)` on a zero response. -/
def decodeFrom (b : Window UInt8) (ipv4 : Bool) : Except Panic AnnounceResponse := do
  let interval := beUInt32 (← b.read 0 4)
  let leechers := beUInt32 (← b.read 4 8)
  let seeders := beUInt32 (← b.read 8 12)
  let rest ← b.tail 12
  let addresses ← rest.eachBlock (addressSize ipv4) decodeAddress
  return { interval, leechers, seeders, addresses }

/-- The address that `bytes` hold. -/
def addressOf (bytes : List UInt8) : CompactAddr :=
  ⟨bytes.take (bytes.length - 2), beUInt16 (bytes.drop (bytes.length - 2))⟩

/-- The response whose fields stand in `body`. -/
def ofBody (ipv4 : Bool) (body : List UInt8) : AnnounceResponse where
  interval := beUInt32 (cut body 0 4)
  leechers := beUInt32 (cut body 4 8)
  seeders := beUInt32 (cut body 8 12)
  addresses := (List.range ((body.length - 12) / addressSize ipv4)).map fun i =>
    addressOf (block (body.drop 12) (addressSize ipv4) i)

theorem decodeAddress_of_size {ipv4 : Bool} {b : Window UInt8} (size : b.len = addressSize ipv4) :
    decodeAddress b = .ok (addressOf b.items) := by
  have fits : b.items.length = 4 + 2 ∨ b.items.length = 16 + 2 := by
    rw [b.length_items, size]
    cases ipv4
    · exact Or.inr rfl
    · exact Or.inl rfl
  rw [decodeAddress, CompactAddr.unmarshalBinary, if_pos fits]
  rfl

/-- **Twelve bytes are enough**: whole addresses are read, and a rest is ignored. -/
theorem decodeFrom_of_le {b : Window UInt8} (long : 12 ≤ b.len) (ipv4 : Bool) :
    decodeFrom b ipv4 = .ok (ofBody ipv4 b.items) := by
  obtain ⟨rest, tail, left⟩ := Window.tail_of_le long
  have size : rest.len = b.items.length - 12 := by rw [← rest.length_items, left, List.length_drop]
  have positive : 0 < addressSize ipv4 := by rw [addressSize]; omega
  have each : ∀ part : Window UInt8, part.len = addressSize ipv4 →
      decodeAddress part = .ok (addressOf part.items) := fun _ => decodeAddress_of_size
  have addresses := Window.eachBlock_eq positive each rest
  rw [left, size] at addresses
  rw [decodeFrom, Window.read_of_le (by decide) (by omega), ok_bind,
    Window.read_of_le (by decide) (by omega), ok_bind, Window.read_of_le (by decide) long, ok_bind,
    tail, ok_bind, addresses]
  rfl

/-- **Fewer than twelve bytes make the decoder panic.** If the array goes on behind the slice, the
third field is read from there, and only then the decoder panics. -/
theorem decodeFrom_of_lt {b : Window UInt8} (short : b.len < 12) (ipv4 : Bool) :
    decodeFrom b ipv4 = .error .bounds := by
  have past := Window.tail_of_lt short
  rw [decodeFrom]
  rcases b.read_cases 0 4 with ⟨first, eq⟩ | eq <;> rw [eq]
  · rw [ok_bind]
    rcases b.read_cases 4 8 with ⟨second, eq⟩ | eq <;> rw [eq]
    · rw [ok_bind]
      rcases b.read_cases 8 12 with ⟨third, eq⟩ | eq <;> rw [eq]
      · rw [ok_bind, past]
        rfl
      · rfl
    · rfl
  · rfl

end AnnounceResponse

/-- What a scrape reports about one torrent. -/
structure ScrapeResponse where
  seeders : UInt32 := 0
  leechers : UInt32 := 0
  completed : UInt32 := 0
  deriving DecidableEq

namespace ScrapeResponse

def encodeTo (r : ScrapeResponse) : List UInt8 :=
  bePut 4 r.seeders.toNat ++ (bePut 4 r.completed.toNat ++ bePut 4 r.leechers.toNat)

/-- `r.DecodeFrom(b)` on a zero response. -/
def decodeFrom (b : Window UInt8) : Except Panic ScrapeResponse := do
  let seeders := beUInt32 (← b.read 0 4)
  let completed := beUInt32 (← b.read 4 8)
  let leechers := beUInt32 (← b.read 8 12)
  return { seeders, leechers, completed }

/-- The response whose fields stand in `body`. -/
def ofBody (body : List UInt8) : ScrapeResponse where
  seeders := beUInt32 (cut body 0 4)
  completed := beUInt32 (cut body 4 8)
  leechers := beUInt32 (cut body 8 12)

theorem decodeFrom_of_size {b : Window UInt8} (size : b.len = 12) :
    decodeFrom b = .ok (ofBody b.items) := by
  rw [decodeFrom, Window.read_of_le (by decide) (by omega), ok_bind,
    Window.read_of_le (by decide) (by omega), ok_bind, Window.read_of_le (by decide) size.ge]
  rfl

/-- **A slice of scrape responses**: the whole ones are read, and a rest is ignored. -/
theorem eachBlock_decodeFrom (b : Window UInt8) :
    b.eachBlock 12 decodeFrom =
      .ok ((List.range (b.len / 12)).map fun i => ofBody (block b.items 12 i)) :=
  Window.eachBlock_eq (by decide) (fun _ size => decodeFrom_of_size size) b

end ScrapeResponse

end GoBt.Tracker
