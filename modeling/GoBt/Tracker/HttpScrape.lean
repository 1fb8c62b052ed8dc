/-
**The scrape response of the HTTP tracker** (`tracker/httptracker/http.go`).

Its files are a map with hashes as keys. The encoder sorts the keys by a text that is the same for all of
them, so that they are written in an order that depends on that in which the map gives them.

* `encodeTo`, `decodeFrom` — the codec; the sort and the order of the map are parameters of the first,
  and whether unordered keys are refused one of the second.
* `listed` — the files in the order in which they are written.
* `encodeTo_eq` — the bytes of a response.
* `Canonical` — one output for all orders, with the keys of its dictionaries increasing, from which a
  strict decoder reads the response.
* **`canonical_iff`** — a response is canonical exactly if it has at most one file, and no failure reason
  of 2^31 bytes.
* `two_files_not_canonical` — a response whose output depends on the order, and is refused in one of them.
-/

import GoBt.Bencode.Ordered
import GoBt.Bencode.Refusal
import GoBt.Lib.GoMap
import GoBt.Metainfo.HashString

namespace GoBt.Tracker.Http

open GoBt.Lib GoBt.Metainfo GoBt.Bencode
open MetaInfo (field)
open Hash (keyType keyMethods)

/-! ### Responses -/

structure ScrapeResponseResult where
  complete : UInt32 := 0
  incomplete : UInt32 := 0
  downloaded : UInt32 := 0
  deriving DecidableEq

namespace ScrapeResponseResult

def toValue (r : ScrapeResponseResult) : Value Unit :=
  .struct [(field "Complete" "complete", .uint 32 r.complete.toNat),
    (field "Incomplete" "incomplete", .uint 32 r.incomplete.toNat),
    (field "Downloaded" "downloaded", .uint 32 r.downloaded.toNat)]

def ofValue : Value Unit → ScrapeResponseResult
  | .struct [(_, .uint _ complete), (_, .uint _ incomplete), (_, .uint _ downloaded)] =>
      ⟨.ofNat complete, .ofNat incomplete, .ofNat downloaded⟩
  | _ => {}

@[simp] theorem ofValue_toValue (r : ScrapeResponseResult) : ofValue r.toValue = r := by
  simp [ofValue, toValue]

end ScrapeResponseResult

structure ScrapeResponse where
  failureReason : GoString := []
  files : GoMap Hash ScrapeResponseResult := ∅

def scrapeEnv (sorter : KeySorter keyLess) (lib : HashText) : Env Unit where
  sorter := sorter
  methods _ :=
    { keyMethods lib with
      marshalBencode := some fun v => (Hash.ofValue v).marshalBencode
      unmarshalBencode := some fun v b =>
        let (h, fault) := (Hash.ofValue v).unmarshalBencode lib b
        (h.toValue, fault) }

def fileKey (h : Hash) : Value Unit := .named () h.toValue

def hashOfKey : Value Unit → Hash
  | .named _ v => Hash.ofValue v
  | _ => zeroHash

namespace ScrapeResponse

/-- An order in which a loop goes through the files. -/
abbrev Order := GoMap.RangeOrder (Hash × ScrapeResponseResult)

/-- The entries of the map, in the order of the loop. -/
def entriesOf (pairs : List (Hash × ScrapeResponseResult)) : List (Value Unit × Value Unit) :=
  pairs.map fun pair => (fileKey pair.1, pair.2.toValue)

def filesValue (entries : Option (List (Value Unit × Value Unit))) : Value Unit :=
  .map keyType (ScrapeResponseResult.toValue {}) entries

/-- The response whose map gives its entries in this order. -/
def toValue (order : Order) (sr : ScrapeResponse) : Value Unit :=
  .struct [(field "FailureReason" "failure_reason,omitempty", .string sr.failureReason),
    (field "Files" "files,omitempty", filesValue (some (entriesOf (order.visit (GoMap.pairs sr.files)))))]

/-- The response into which is decoded; its map is nil. -/
def zeroValue : Value Unit :=
  .struct [(field "FailureReason" "failure_reason,omitempty", .string []),
    (field "Files" "files,omitempty", filesValue none)]

def ofValue : Value Unit → ScrapeResponse
  | .struct [(_, .string reason), (_, .map _ _ entries)] =>
      ⟨reason, GoMap.insertAll ∅ ((entries.getD []).map fun entry =>
        (hashOfKey entry.1, .ofValue entry.2))⟩
  | _ => {}

/-- `sr.EncodeTo(w)`: what is written. -/
def encodeTo (sorter : KeySorter keyLess) (lib : HashText) (order : Order) (sr : ScrapeResponse) :
    Except Fault GoString :=
  encodeBytes (scrapeEnv sorter lib) (sr.toValue order)

/-- What a decoder makes of `b`, with `SetFailOnUnorderedKeys(strict)`. `sr.DecodeFrom(r)` uses one
that is not strict. -/
def decodeFrom (sorter : KeySorter keyLess) (lib : HashText) (strict : Bool) (b : GoString) : Except Fault ScrapeResponse :=
  match Bencode.decode (scrapeEnv sorter lib) { r := b, failUnordered := strict } zeroValue with
  | (_, v, none) => .ok (ofValue v)
  | (_, _, some fault) => .error fault

/-- **The output is canonical**: it is the same for all orders of the map, its dictionaries have their
keys in increasing order, and a strict decoder reads the same response from it. -/
def Canonical (sorter : KeySorter keyLess) (lib : HashText) (sr : ScrapeResponse) : Prop :=
  ∃ b, (∀ order, sr.encodeTo sorter lib order = .ok b) ∧ Ordered b ∧
    ∃ sr', decodeFrom sorter lib true b = .ok sr' ∧ sr'.failureReason = sr.failureReason ∧
      ∀ h, sr'.files.lookup h = sr.files.lookup h

end ScrapeResponse

/-! ### One file -/

section Results

variable (sorter : KeySorter keyLess) (lib : HashText)

def ScrapeResponseResult.parts (r : ScrapeResponseResult) : List (FieldPart Unit) :=
  [⟨field "Complete" "complete", .uint 32 0, .uint 32 r.complete.toNat, .uint 32 r.complete.toNat⟩,
    ⟨field "Incomplete" "incomplete", .uint 32 0, .uint 32 r.incomplete.toNat,
      .uint 32 r.incomplete.toNat⟩,
    ⟨field "Downloaded" "downloaded", .uint 32 0, .uint 32 r.downloaded.toNat,
      .uint 32 r.downloaded.toNat⟩]

theorem ScrapeResponseResult.layout (r : ScrapeResponseResult) :
    FieldPart.Layout (scrapeEnv sorter lib) r.parts :=
  .of_sample _ (parts {}) rfl (by decide +kernel)

theorem codes_result (r : ScrapeResponseResult) :
    Codes (scrapeEnv sorter lib) (ScrapeResponseResult.toValue {}) r.toValue r.toValue := by
  have layout := r.layout sorter lib
  have tagged := layout.tagged
  have fine : ∀ p ∈ r.parts, p.Fine (scrapeEnv sorter lib) := by
    simp only [ScrapeResponseResult.parts, List.forall_mem_cons] at tagged ⊢
    obtain ⟨tag₀, tag₁, tag₂, _⟩ := tagged
    exact ⟨.uint tag₀ r.complete.toNat_lt (by decide), .uint tag₁ r.incomplete.toNat_lt (by decide),
      .uint tag₂ r.downloaded.toNat_lt (by decide), by simp⟩
  have codes := Codes.struct layout.keyed layout.distinct layout.short fine
  exact codes

theorem writesOrdered_result (r : ScrapeResponseResult) :
    WritesOrdered (scrapeEnv sorter lib) r.toValue := by
  have layout := r.layout sorter lib
  have each : ∀ p ∈ r.parts, WritesOrdered (scrapeEnv sorter lib) p.value := by
    simp only [ScrapeResponseResult.parts, List.forall_mem_cons]
    exact ⟨.uint _ _, .uint _ _, .uint _ _, by simp⟩
  have ordered := WritesOrdered.struct layout fun p member => each p (FieldPart.mem_dict.mp member).1
  exact ordered

theorem exists_resultToken : ∃ token : ScrapeResponseResult → GoString, ∀ r,
    encodeValue (scrapeEnv sorter lib) {} r.toValue = .ok (token r) ∧ Ordered (token r) ∧ Item (token r) ∧
      Reads (scrapeEnv sorter lib) (ScrapeResponseResult.toValue {}) (token r) r.toValue := by
  have each : ∀ r : ScrapeResponseResult, ∃ token,
      encodeValue (scrapeEnv sorter lib) {} r.toValue = .ok token ∧ Ordered token ∧ Item token ∧
        Reads (scrapeEnv sorter lib) (ScrapeResponseResult.toValue {}) token r.toValue := by
    intro r
    obtain ⟨token, encoded, item, reads⟩ := codes_result sorter lib r
    obtain ⟨token', encoded', ordered⟩ := writesOrdered_result sorter lib r
    obtain rfl := Except.ok.inj (encoded.symm.trans encoded')
    exact ⟨token, encoded, ordered, item, reads⟩
  choose token fine using each
  exact ⟨token, fine⟩

theorem encodeValue_fileKey (h : Hash) :
    encodeValue (scrapeEnv sorter lib) {} (fileKey h) = .ok (encodeString h.bytes) := by
  refine encodeValue_named ?_
  show some (Hash.marshalBencode (Hash.ofValue h.toValue)) = _
  rw [Hash.ofValue_toValue]
  exact congrArg some (encodeData_ok h.bytes)

theorem mapKey_fileKey (h : Hash) :
    mapKey (scrapeEnv sorter lib) keyType h.bytes = (fileKey h, none) := by
  have read : zeroHash.fromString lib h.bytes = (h, none) := by
    rw [Hash.fromString, if_pos h.size, Hash.copyOver_of_size]
  show (Value.named () ((Hash.ofValue zeroHash.toValue).fromString lib h.bytes).1.toValue,
    ((Hash.ofValue zeroHash.toValue).fromString lib h.bytes).2) = _
  rw [Hash.ofValue_toValue, read]
  rfl

end Results

/-! ### The files -/

section Files

variable (sorter : KeySorter keyLess) (lib : HashText) {pairs : List (Hash × ScrapeResponseResult)}

theorem sameKeys_bytes (bs cs : List UInt8) :
    Value.sameKeys (χ := Unit) (bs.map fun b => .uint 8 b.toNat) (cs.map fun c => .uint 8 c.toNat) =
      true ↔ bs = cs := by
  induction bs generalizing cs with
  | nil =>
    cases cs with
    | nil => exact ⟨fun _ => rfl, fun _ => rfl⟩
    | cons c cs => exact ⟨nofun, nofun⟩
  | cons b bs ih =>
    cases cs with
    | nil => exact ⟨nofun, nofun⟩
    | cons c cs =>
      simp only [List.map_cons, Value.sameKeys, Value.sameKey, Bool.and_eq_true, beq_iff_eq, ih,
        UInt8.toNat_inj, List.cons.injEq]

theorem sameKey_fileKey {h k : Hash} (different : h ≠ k) :
    (fileKey h).sameKey (fileKey k) = false := by
  rw [← Bool.not_eq_true]
  intro same
  exact different (Hash.ext ((sameKeys_bytes h.bytes k.bytes).mp same))

/-- The files in the order in which they are written: that of keys which are all the same. -/
def listed (pairs : List (Hash × ScrapeResponseResult)) : List (Hash × ScrapeResponseResult) :=
  sorter.sortOn (fun _ => []) pairs

theorem perm_listed (pairs : List (Hash × ScrapeResponseResult)) :
    (listed sorter pairs).Perm pairs := sorter.perm_sortOn _ _

theorem listed_of_few (few : pairs.length ≤ 1) : listed sorter pairs = pairs := by
  have size := (perm_listed sorter pairs).length_eq
  rcases pairs with _ | ⟨pair, _ | ⟨second, rest⟩⟩
  · exact List.length_eq_zero_iff.mp size
  · exact List.perm_singleton.mp (perm_listed sorter _)
  · rw [List.length_cons, List.length_cons] at few
    omega

theorem listed_injective {others : List (Hash × ScrapeResponseResult)}
    (size : pairs.length = others.length) (same : listed sorter pairs = listed sorter others) :
    pairs = others :=
  sorter.sortOn_injective (by simp [size]) same

def filesBytes (token : ScrapeResponseResult → GoString)
    (pairs : List (Hash × ScrapeResponseResult)) : GoString :=
  entryBytes (fun pair => pair.1.bytes) (fun pair => token pair.2) pairs

theorem short_hash (h : Hash) : h.bytes.length < 2 ^ 31 := by
  rw [h.size]
  decide

theorem encodeValue_files {token : ScrapeResponseResult → GoString}
    (encoded : ∀ r, encodeValue (scrapeEnv sorter lib) {} r.toValue = .ok (token r)) :
    encodeValue (scrapeEnv sorter lib) {} (ScrapeResponse.filesValue (some (ScrapeResponse.entriesOf pairs))) =
      .ok (100 :: (filesBytes token (listed sorter pairs) ++ [101])) :=
  encodeValue_mapNamed (fun pair _ => encodeValue_fileKey sorter lib pair.1)
    (fun pair _ => encoded pair.2) (fun _ _ => rfl) keyType

theorem encodes_files :
    Encodes (scrapeEnv sorter lib) (ScrapeResponse.filesValue (some (ScrapeResponse.entriesOf pairs))) := by
  obtain ⟨token, each⟩ := exists_resultToken sorter lib
  exact ⟨_, encodeValue_files sorter lib fun r => (each r).1,
    .inl (item_dict (fun pair _ => short_hash pair.1) fun pair _ => (each pair.2).2.2.1)⟩

theorem sorted_of_few (few : pairs.length ≤ 1) :
    pairs.Pairwise fun a b => a.1.bytes < b.1.bytes := by
  rcases pairs with _ | ⟨pair, _ | ⟨second, rest⟩⟩
  · exact .nil
  · exact List.pairwise_singleton _ _
  · rw [List.length_cons, List.length_cons] at few
    omega

theorem codes_files (few : pairs.length ≤ 1) :
    Codes (scrapeEnv sorter lib) (ScrapeResponse.filesValue none)
      (ScrapeResponse.filesValue (some (ScrapeResponse.entriesOf pairs)))
      (ScrapeResponse.filesValue (some (ScrapeResponse.entriesOf pairs))) := by
  obtain ⟨token, each⟩ := exists_resultToken sorter lib
  have sorted := sorted_of_few few
  refine ⟨_, encodeValue_files sorter lib fun r => (each r).1,
    item_dict (fun pair _ => short_hash pair.1) fun pair _ => (each pair.2).2.2.1, ?_⟩
  rw [listed_of_few sorter few]
  refine Reads.mapNamed rfl (fun pair _ => short_hash pair.1) (sorted.imp fun less => ?_)
    (fun pair _ => mapKey_fileKey sorter lib pair.1) (sorted.imp fun less => ?_)
    fun pair _ => (each pair.2).2.2.2
  · exact List.lt_asymm less
  · refine sameKey_fileKey fun same => ?_
    rw [same] at less
    exact List.lt_irrefl _ less

theorem writesOrdered_files (few : pairs.length ≤ 1) :
    WritesOrdered (scrapeEnv sorter lib)
      (ScrapeResponse.filesValue (some (ScrapeResponse.entriesOf pairs))) := by
  obtain ⟨token, each⟩ := exists_resultToken sorter lib
  refine ⟨_, encodeValue_files sorter lib fun r => (each r).1, ?_⟩
  rw [listed_of_few sorter few]
  exact ordered_dict (fun pair _ => short_hash pair.1) (sorted_of_few few) fun pair _ =>
    (each pair.2).2.1

/-- **The bytes tell the order of the files.** -/
theorem filesBytes_injective {token : ScrapeResponseResult → GoString}
    {others : List (Hash × ScrapeResponseResult)} (perm : pairs.Perm others)
    (distinct : (pairs.map Prod.fst).Nodup)
    (same : filesBytes token pairs = filesBytes token others) : pairs = others := by
  induction pairs generalizing others with
  | nil => exact perm.nil_eq
  | cons pair pairs ih =>
    match others, perm, same with
    | [], perm, _ => exact absurd perm.length_eq (by simp)
    | other :: others, perm, same =>
      simp only [filesBytes, entryBytes, List.flatMap_cons, List.append_assoc] at same
      have front : encodeString pair.1.bytes = encodeString other.1.bytes := by
        refine List.append_inj_left same ?_
        simp only [encodeString, List.length_append, List.length_cons, pair.1.size, other.1.size]
      have hash : pair.1 = other.1 := Hash.ext (encodeString_injective front)
      obtain ⟨new, distinctRest⟩ := List.nodup_cons.mp distinct
      obtain rfl : pair = other := by
        rcases List.mem_cons.mp (perm.mem_iff.mpr List.mem_cons_self) with equal | later
        · exact equal.symm
        · exact absurd (List.mem_map_of_mem later) (hash ▸ new)
      rw [ih perm.cons_inv distinctRest (List.append_cancel_left (List.append_cancel_left same))]

end Files

/-! ### The response -/

namespace ScrapeResponse

def reasonPart (reason : GoString) : FieldPart Unit :=
  ⟨field "FailureReason" "failure_reason,omitempty", .string [], .string reason, .string reason⟩

def filesPart (pairs : List (Hash × ScrapeResponseResult)) : FieldPart Unit :=
  ⟨field "Files" "files,omitempty", filesValue none, filesValue (some (entriesOf pairs)),
    filesValue ((orNil (some pairs)).map entriesOf)⟩

def parts (reason : GoString) (pairs : List (Hash × ScrapeResponseResult)) : List (FieldPart Unit) :=
  [reasonPart reason, filesPart pairs]

section Parts

variable (sorter : KeySorter keyLess) (lib : HashText) (reason : GoString) (pairs : List (Hash × ScrapeResponseResult))

theorem layout : FieldPart.Layout (scrapeEnv sorter lib) (parts reason pairs) :=
  .of_sample _ (parts [] []) rfl (by decide +kernel)

theorem parts_sorted : (parts reason pairs).Pairwise fun p q => p.key < q.key := by
  have sorted : ((parts [] []).map FieldPart.key).Pairwise (· < ·) := by decide +kernel
  exact List.pairwise_map.mp sorted

theorem isSome_reasonKey : (fieldKey (scrapeEnv sorter lib) (reasonPart reason).field
    (reasonPart reason).value).isSome = !reason.isEmpty :=
  have option : optionsContain (parseTag (reasonPart []).field.tag).2 "omitempty" = true := by
    decide +kernel
  isSome_fieldKey_omitempty ((layout sorter lib reason []).tagged _ List.mem_cons_self) option rfl

theorem isSome_filesKey : (fieldKey (scrapeEnv sorter lib) (filesPart pairs).field
    (filesPart pairs).value).isSome = !pairs.isEmpty := by
  have option : optionsContain (parseTag (filesPart []).field.tag).2 "omitempty" = true := by
    decide +kernel
  have tagged := (layout sorter lib [] pairs).tagged (filesPart pairs) (by simp [parts])
  rw [isSome_fieldKey_omitempty tagged option rfl]
  cases pairs with
  | nil => rfl
  | cons pair rest => rfl

theorem dict_parts : FieldPart.dict (scrapeEnv sorter lib) (parts reason pairs) =
    (if reason.isEmpty then [] else [reasonPart reason]) ++
      if pairs.isEmpty then [] else [filesPart pairs] := by
  rw [FieldPart.dict_of_sorted (parts_sorted reason pairs), FieldPart.written, parts, List.filter_cons,
    List.filter_singleton, isSome_reasonKey, isSome_filesKey]
  cases reason with
  | nil | cons c reason => cases pairs <;> rfl

theorem mem_parts {p : FieldPart Unit} (member : p ∈ FieldPart.dict (scrapeEnv sorter lib) (parts reason pairs)) :
    p = reasonPart reason ∨ p = filesPart pairs := by
  simpa [parts] using (FieldPart.mem_dict.mp member).1

theorem map_entriesOf : (entriesOf pairs).map (fun entry =>
    (hashOfKey entry.1, ScrapeResponseResult.ofValue entry.2)) = pairs := by
  rw [entriesOf, List.map_map]
  exact List.map_id'' (fun pair => by simp [fileKey, hashOfKey]) pairs

theorem ofValue_results : ofValue (.struct ((parts reason pairs).map fun p => (p.field, p.result))) =
    ⟨reason, GoMap.insertAll ∅ pairs⟩ := by
  have entries : ((orNil (some pairs)).map entriesOf).getD [] = entriesOf pairs := by
    cases pairs <;> rfl
  show ScrapeResponse.mk reason (GoMap.insertAll ∅ ((((orNil (some pairs)).map entriesOf).getD []).map
    fun entry => (hashOfKey entry.1, ScrapeResponseResult.ofValue entry.2))) = _
  rw [entries, map_entriesOf]

theorem fine_files (few : pairs.length ≤ 1) :
    (filesPart pairs).Fine (scrapeEnv sorter lib) := by
  have tagged := (layout sorter lib [] pairs).tagged (filesPart pairs) (by simp [parts])
  cases pairs with
  | nil => exact .of_tagged tagged rfl (fun _ _ => rfl) fun full => absurd (full (by decide)) (by decide)
  | cons pair pairs => exact .of_tagged tagged rfl nofun fun _ => codes_files sorter lib few

end Parts

variable (sorter : KeySorter keyLess) (lib : HashText) (sr : ScrapeResponse)

/-- **The bytes of a response**: the failure reason and the files, those that are not empty. -/
theorem encodeTo_eq {token : ScrapeResponseResult → GoString}
    (encoded : ∀ r, encodeValue (scrapeEnv sorter lib) {} r.toValue = .ok (token r)) (order : Order) :
    sr.encodeTo sorter lib order = .ok (100 :: (
      ((if sr.failureReason.isEmpty then [] else
        encodeString (reasonPart []).key ++ encodeString sr.failureReason) ++
      if (order.visit (GoMap.pairs sr.files)).isEmpty then [] else
        encodeString (filesPart []).key ++
          100 :: (filesBytes token (listed sorter (order.visit (GoMap.pairs sr.files))) ++ [101])) ++
        [101])) := by
  unfold encodeTo toValue
  generalize order.visit (GoMap.pairs sr.files) = pairs
  let bytes (p : FieldPart Unit) := (encodeValue (scrapeEnv sorter lib) {} p.value).toOption.getD []
  have reason : encodeValue (scrapeEnv sorter lib) {} (reasonPart sr.failureReason).value =
      .ok (encodeString sr.failureReason) := encodeValue_string _ _ _
  have files : encodeValue (scrapeEnv sorter lib) {} (filesPart pairs).value =
      .ok (100 :: (filesBytes token (listed sorter pairs) ++ [101])) :=
    encodeValue_files sorter lib encoded
  have each : ∀ p ∈ FieldPart.dict (scrapeEnv sorter lib) (parts sr.failureReason pairs),
      encodeValue (scrapeEnv sorter lib) {} p.value = .ok (bytes p) := by
    intro p member
    rcases mem_parts sorter lib _ _ member with rfl | rfl
    · simp only [bytes, reason, Except.toOption, Option.getD_some]
    · simp only [bytes, files, Except.toOption, Option.getD_some]
  have written := encodeValue_struct (layout sorter lib sr.failureReason pairs).keyed each
  rw [dict_parts, entryBytes, List.flatMap_append] at written
  refine written.trans ?_
  have reasonBytes : bytes (reasonPart sr.failureReason) = encodeString sr.failureReason := by
    simp only [bytes, reason, Except.toOption, Option.getD_some]
  have filesBytes' :
      bytes (filesPart pairs) = 100 :: (filesBytes token (listed sorter pairs) ++ [101]) := by
    simp only [bytes, files, Except.toOption, Option.getD_some]
  have reasonKey : (reasonPart sr.failureReason).key = (reasonPart []).key := rfl
  have filesKey : (filesPart pairs).key = (filesPart []).key := rfl
  split_ifs <;>
    simp only [List.flatMap_nil, List.flatMap_singleton, reasonBytes, filesBytes', reasonKey, filesKey]

/-- **A response with at most one file is canonical**, if its failure reason is short. -/
theorem canonical_of_few (few : sr.files.entries.length ≤ 1)
    (short : sr.failureReason.length < 2 ^ 31) : Canonical sorter lib sr := by
  generalize eq : GoMap.pairs sr.files = pairs
  have few' : pairs.length ≤ 1 := by rwa [← eq, GoMap.pairs, List.length_map]
  have fine : ∀ p ∈ parts sr.failureReason pairs, p.Fine (scrapeEnv sorter lib) := by
    have tagged := (layout sorter lib sr.failureReason pairs).tagged _ List.mem_cons_self
    simp only [parts, List.forall_mem_cons]
    exact ⟨.string tagged short, fine_files sorter lib pairs few', by simp⟩
  have each : ∀ p ∈ FieldPart.dict (scrapeEnv sorter lib) (parts sr.failureReason pairs),
      WritesOrdered (scrapeEnv sorter lib) p.value := by
    intro p member
    rcases mem_parts sorter lib _ _ member with rfl | rfl
    · exact .string short
    · exact writesOrdered_files sorter lib few'
  have layout := layout sorter lib sr.failureReason pairs
  obtain ⟨b, encoded, _, reads⟩ := Codes.struct layout.keyed layout.distinct layout.short fine
  obtain ⟨b', encoded', ordered⟩ := WritesOrdered.struct layout each
  obtain rfl := Except.ok.inj (encoded.symm.trans encoded')
  obtain ⟨d, decoded⟩ := reads.decode true
  refine ⟨b, fun order => ?_, ordered, ⟨sr.failureReason, GoMap.insertAll ∅ pairs⟩, ?_, rfl, fun h => ?_⟩
  · rw [encodeTo, toValue, eq, order.visit_of_length_le_one few']
    exact encoded
  · have read : Bencode.decode (scrapeEnv sorter lib) { r := b, failUnordered := true } zeroValue = _ := decoded
    rw [decodeFrom, read]
    exact congrArg Except.ok (ofValue_results _ _)
  · rw [← eq]
    exact GoMap.lookup_insertAll_pairs sr.files h

/-- **The order in which two files come decides what is written.** -/
theorem encodeTo_swapped {first second : Hash × ScrapeResponseResult}
    {rest : List (Hash × ScrapeResponseResult)}
    (files : GoMap.pairs sr.files = first :: second :: rest) :
    sr.encodeTo sorter lib (.asStored _) ≠ sr.encodeTo sorter lib (.swapped _) := by
  intro same
  obtain ⟨token, each⟩ := exists_resultToken sorter lib
  have encoded := fun r => (each r).1
  have distinct := GoMap.nodup_fst_pairs sr.files
  have stored : (GoMap.RangeOrder.asStored _).visit (GoMap.pairs sr.files) = first :: second :: rest :=
    files
  have swapped : (GoMap.RangeOrder.swapped _).visit (GoMap.pairs sr.files) = second :: first :: rest := by
    rw [files]
    rfl
  rw [files] at distinct
  rw [encodeTo_eq sorter lib sr encoded, encodeTo_eq sorter lib sr encoded, stored, swapped] at same
  -- What stands before the first hash is the same.
  have bytes := List.append_cancel_right (List.cons.inj (Except.ok.inj same)).2
  have bytes := List.append_cancel_left bytes
  have bytes := List.append_cancel_left bytes
  have bytes := List.append_cancel_right (List.cons.inj bytes).2
  have perm : (listed sorter (first :: second :: rest)).Perm
      (listed sorter (second :: first :: rest)) :=
    (perm_listed sorter _).trans ((List.Perm.swap _ _ _).trans (perm_listed sorter _).symm)
  have keys := ((perm_listed sorter _).map Prod.fst).nodup_iff.mpr distinct
  have equal : first :: second :: rest = second :: first :: rest :=
    listed_injective sorter rfl (filesBytes_injective perm keys bytes)
  rw [(List.cons.inj equal).1, List.map_cons, List.nodup_cons] at distinct
  exact distinct.1 List.mem_cons_self

theorem decodeFrom_of_long (long : 2 ^ 31 ≤ sr.failureReason.length) (order : Order) :
    ∃ b, sr.encodeTo sorter lib order = .ok b ∧ ∀ strict sr', decodeFrom sorter lib strict b ≠ .ok sr' := by
  generalize eq : order.visit (GoMap.pairs sr.files) = pairs
  have each : ∀ p ∈ FieldPart.dict (scrapeEnv sorter lib) (parts sr.failureReason pairs),
      Encodes (scrapeEnv sorter lib) p.value := by
    intro p member
    rcases mem_parts sorter lib _ _ member with rfl | rfl
    · exact .string _
    · exact encodes_files sorter lib
  have bad : reasonPart sr.failureReason ∈
      FieldPart.dict (scrapeEnv sorter lib) (parts sr.failureReason pairs) := by
    have full : sr.failureReason.isEmpty = false := by
      cases reason : sr.failureReason with
      | nil => rw [reason] at long; exact absurd long (by decide)
      | cons c rest => rfl
    rw [dict_parts, full]
    exact List.mem_cons_self
  have unreadable := Unreadable.struct (layout sorter lib sr.failureReason pairs) each
    ⟨_, bad, .string long⟩
  obtain ⟨b, encoded, fails⟩ := unreadable.decode rfl fun _ => rfl
  refine ⟨b, ?_, fun strict sr' read => ?_⟩
  · rw [encodeTo, toValue, eq]
    exact encoded
  · have failed := fails { r := b, failUnordered := strict } rfl zeroValue
    unfold decodeFrom at read
    split at read
    · rename_i result
      rw [result] at failed
      exact failed rfl
    · cases read

/-- **A response is canonical exactly if it has at most one file**, and a failure reason that can be
read. -/
theorem canonical_iff : Canonical sorter lib sr ↔
    sr.files.entries.length ≤ 1 ∧ sr.failureReason.length < 2 ^ 31 := by
  constructor
  swap
  · rintro ⟨few, short⟩
    exact canonical_of_few sorter lib sr few short
  rintro ⟨b, written, _, sr', read, _⟩
  constructor
  · by_contra many
    have size : (GoMap.pairs sr.files).length = sr.files.entries.length := List.length_map _
    match files : GoMap.pairs sr.files with
    | [] =>
        rw [files, List.length_nil] at size
        omega
    | [_] =>
        rw [files, List.length_singleton] at size
        omega
    | first :: second :: rest =>
        exact encodeTo_swapped sorter lib sr files ((written _).trans (written _).symm)
  · by_contra long
    obtain ⟨b', written', fails⟩ := decodeFrom_of_long sorter lib sr (Nat.le_of_not_lt long) (.asStored _)
    obtain rfl := Except.ok.inj ((written _).symm.trans written')
    exact fails true sr' read

def lowHash : Hash := ⟨List.replicate 20 1, rfl⟩

def highHash : Hash := ⟨List.replicate 20 2, rfl⟩

/-- The response with a file for each of the hashes; its map gives the greater one first. -/
def twoFiles : ScrapeResponse := { files := GoMap.insertAll ∅ [(lowHash, {}), (highHash, {})] }

def twoFilesText (first second : Hash) : GoString :=
  let result := str "d8:completei0e10:downloadedi0e10:incompletei0ee"
  str "d5:filesd20:" ++ first.bytes ++ result ++ str "20:" ++ second.bytes ++ result ++ str "ee"

/-- The decoders of the standard library; no hash is made by `sha1` here. -/
def anyText : HashText := standardText fun _ => zeroHash

/-- **The output of two files depends on the order of the map**, and a strict decoder refuses the one
that starts with the greater hash. -/
theorem two_files_not_canonical :
    twoFiles.encodeTo insertionSorter anyText (.asStored _) = .ok (twoFilesText highHash lowHash) ∧
      twoFiles.encodeTo insertionSorter anyText (.swapped _) = .ok (twoFilesText lowHash highHash) ∧
      (decodeFrom insertionSorter anyText true (twoFilesText highHash lowHash)).isOk = false ∧
      ¬ Canonical insertionSorter anyText twoFiles := by
  have stored : twoFiles.encodeTo insertionSorter anyText (.asStored _) = .ok (twoFilesText highHash lowHash) := by
    decide +kernel
  have swapped : twoFiles.encodeTo insertionSorter anyText (.swapped _) = .ok (twoFilesText lowHash highHash) := by
    decide +kernel
  have different : twoFilesText highHash lowHash ≠ twoFilesText lowHash highHash := by decide +kernel
  refine ⟨stored, swapped, by decide +kernel, ?_⟩
  rintro ⟨b, written, _⟩
  refine different ?_
  exact Except.ok.inj (stored.symm.trans ((written _).trans ((written _).symm.trans swapped)))

end ScrapeResponse

end GoBt.Tracker.Http
