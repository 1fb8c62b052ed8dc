/-
**Magnet links** (`metainfo/magnet.go`).

`url.Parse` is known on the links that `String` writes (`Urls`); the query of a link is that of
`GoBt.Go.Query`.

* `Magnet.string`, `parseMagnetURI` — the source's functions.
* **`parseMagnetURI_panics_iff`** — a link makes the parser panic exactly when its `xt` is a text of 32
  characters that base32 accepts with padding or line breaks in it.
* `list_rawQuery` — the query of a link that is written again.
* **`reparse_iff`** — a link that is accepted is the same after it is written and parsed again exactly
  when its values of `dn` behind the first are all equal to the first, and that is not empty.
-/

import GoBt.Go.Query
import GoBt.Metainfo.HashString

namespace GoBt.Metainfo

open GoBt.Lib
open GoBt.Url (Values parseQuery)

/-! ### The source's functions -/

/-- `Magnet`. A nil map or slice is not told from an empty one. -/
structure Magnet where
  infoHash : Hash
  trackers : List GoString
  displayName : GoString
  params : Values

/-- What is taken from the standard library. -/
structure Urls where
  /-- `url.Parse(uri)`: the scheme and the raw query, or the text of an error. -/
  parse : GoString → Except GoString (GoString × GoString)
  /-- `%q`. -/
  quote : GoString → GoString
  parse_magnet : ∀ query, (∀ c ∈ query, Url.IsPlain c) →
    parse (str "magnet:?" ++ query) = .ok (str "magnet", query)

/-- How a link is refused. -/
inductive Refusal
  | error (text : GoString)
  /-- The panic for another number of bytes. -/
  | panicked (n : Nat)
  deriving DecidableEq

def xtPrefix : GoString := str "urn:btih:"

namespace Magnet

/-- The query that `String` puts behind the hash. -/
def values (m : Magnet) : Values :=
  let vs := m.trackers.foldl (fun vs tr => vs.add (str "tr") tr) m.params
  if m.displayName ≠ [] then vs.add (str "dn") m.displayName else vs

def rawQuery (m : Magnet) : GoString :=
  str "xt" ++ 61 :: (xtPrefix ++ Hex.encode m.infoHash.bytes) ++
    if m.values.entries.length ≠ 0 then 38 :: Url.encode m.values else []

def string (m : Magnet) : GoString := str "magnet:?" ++ m.rawQuery

end Magnet

def dropFirst (vs : Values) (key : GoString) : Values :=
  match vs.list key with
  | [] => vs.erase key
  | [_] => vs.erase key
  | _ :: rest => vs.insert key rest

/-- The end of `parseInfohash`, behind the decoding. -/
def checkLength (bytes : List UInt8) : Except Refusal Hash :=
  if bytes.length ≠ 20 then .error (.panicked bytes.length) else .ok (Hash.copyFrom bytes)

def parseInfohash (xt : GoString) : Except Refusal Hash :=
  if xtPrefix.isPrefixOf xt = false then .error (.error (str "bad xt parameter prefix"))
  else
    let encoded := xt.drop xtPrefix.length
    if encoded.length = 40 then
      match (Hex.decode encoded).2 with
      | some err => .error (.error (str "error decoding xt: " ++ err.text))
      | none => checkLength (Hex.decode encoded).1
    else if encoded.length = 32 then
      match Base32.decode encoded with
      | .error offset => .error (.error (str "error decoding xt: " ++ Base32.errorText offset))
      | .ok bytes => checkLength bytes
    else
      .error (.error (str "unhandled xt parameter encoding (encoded length " ++
        numeral 10 encoded.length ++ str ")"))

/-- The end of `ParseMagnetURI`, behind the hash. -/
def Magnet.ofQuery (infoHash : Hash) (q : Values) : Magnet :=
  let q := dropFirst q (str "xt")
  let displayName := q.get (str "dn")
  let q := dropFirst q (str "dn")
  { infoHash
    trackers := q.list (str "tr")
    displayName
    params := q.erase (str "tr") }

def parseMagnetURI (urls : Urls) (uri : GoString) : Except Refusal Magnet :=
  match urls.parse uri with
  | .error text => .error (.error (str "error parsing uri: " ++ text))
  | .ok (scheme, rawQuery) =>
      if scheme ≠ str "magnet" then
        .error (.error (str "unexpected scheme " ++ urls.quote scheme))
      else
        let q := parseQuery rawQuery
        let xt := q.get (str "xt")
        match parseInfohash xt with
        | .error (.error text) =>
            .error (.error (str "error parsing infohash " ++ urls.quote xt ++ str ": " ++ text))
        | .error (.panicked n) => .error (.panicked n)
        | .ok infoHash => .ok (.ofQuery infoHash q)

/-! ### Panics -/

theorem checkLength_panics_iff {bytes : List UInt8} :
    (∃ n, checkLength bytes = .error (.panicked n)) ↔ bytes.length ≠ 20 := by
  unfold checkLength
  split
  · next other => exact iff_of_true ⟨_, rfl⟩ other
  · next same => exact iff_of_false (by rintro ⟨_, eq⟩; cases eq) same

def Panics (xt : GoString) : Prop :=
  ∃ encoded, xt = xtPrefix ++ encoded ∧ encoded.length = 32 ∧
    (∃ bytes, Base32.decode encoded = .ok bytes) ∧ ∃ c ∈ encoded, Base32.IsFiller c

theorem parseInfohash_panics_iff {xt : GoString} :
    (∃ n, parseInfohash xt = .error (.panicked n)) ↔ Panics xt := by
  unfold parseInfohash
  split
  · next other =>
      refine iff_of_false (by rintro ⟨_, eq⟩; cases eq) ?_
      rintro ⟨encoded, rfl, _⟩
      rw [List.isPrefixOf_iff_prefix.mpr (List.prefix_append _ _)] at other
      cases other
  · next front =>
      obtain ⟨encoded, rfl⟩ := List.isPrefixOf_iff_prefix.mp (Bool.not_eq_false _ ▸ front)
      have same : Panics (xtPrefix ++ encoded) ↔ encoded.length = 32 ∧
          (∃ bytes, Base32.decode encoded = .ok bytes) ∧ ∃ c ∈ encoded, Base32.IsFiller c := by
        constructor
        · rintro ⟨other, eq, panics⟩
          rw [List.append_cancel_left eq]
          exact panics
        · exact fun panics => ⟨encoded, rfl, panics⟩
      rw [same, List.drop_left]
      dsimp only
      split
      · next hex =>
          refine iff_of_false ?_ fun panics => absurd (hex.symm.trans panics.1) (by decide)
          cases failed : (Hex.decode encoded).2 with
          | some err => rintro ⟨_, eq⟩; cases eq
          | none =>
            have full := Hex.length_decode failed
            rw [checkLength_panics_iff]
            omega
      · split
        · next base32 =>
            rw [and_iff_right base32]
            cases decoded : Base32.decode encoded with
            | error offset =>
              exact iff_of_false (by rintro ⟨_, eq⟩; cases eq) (by rintro ⟨⟨_, eq⟩, _⟩; cases eq)
            | ok bytes =>
              obtain ⟨plain, filled⟩ := Base32.length_decode decoded
              rw [base32] at plain filled
              rw [checkLength_panics_iff]
              by_cases filler : ∃ c ∈ encoded, Base32.IsFiller c
              · have short := filled filler
                exact iff_of_true (by omega) ⟨⟨bytes, rfl⟩, filler⟩
              · have full := plain fun c member is => filler ⟨c, member, is⟩
                exact iff_of_false (by omega) fun both => filler both.2
        · next other =>
            exact iff_of_false (by rintro ⟨_, eq⟩; cases eq) fun panics => other panics.1

/-- **When a link makes the parser panic.** -/
theorem parseMagnetURI_panics_iff (urls : Urls) (uri : GoString) :
    (∃ n, parseMagnetURI urls uri = .error (.panicked n)) ↔
      ∃ query, urls.parse uri = .ok (str "magnet", query) ∧
        Panics ((parseQuery query).get (str "xt")) := by
  unfold parseMagnetURI
  rcases urls.parse uri with text | ⟨scheme, query⟩
  · exact iff_of_false (by rintro ⟨_, eq⟩; cases eq) (by rintro ⟨_, eq, _⟩; cases eq)
  dsimp only
  split
  · next other =>
      refine iff_of_false (by rintro ⟨_, eq⟩; cases eq) ?_
      rintro ⟨_, eq, _⟩
      cases eq
      exact other rfl
  · next same =>
      have unfolded : (∃ query', (.ok (scheme, query) : Except GoString _) = .ok (str "magnet", query') ∧
          Panics ((parseQuery query').get (str "xt"))) ↔
          Panics ((parseQuery query).get (str "xt")) := by
        constructor
        · rintro ⟨_, eq, panics⟩
          cases eq
          exact panics
        · exact fun panics => ⟨query, by rw [not_not.mp same], panics⟩
      rw [unfolded, ← parseInfohash_panics_iff]
      rcases parseInfohash ((parseQuery query).get (str "xt")) with (text | n) | h
      · exact iff_of_false (by rintro ⟨_, eq⟩; cases eq) (by rintro ⟨_, eq⟩; cases eq)
      · exact iff_of_true ⟨n, rfl⟩ ⟨n, rfl⟩
      · exact iff_of_false (by rintro ⟨_, eq⟩; cases eq) (by rintro ⟨_, eq⟩; cases eq)

/-! ### The query of a link -/

theorem list_dropFirst (vs : Values) (key key' : GoString) :
    Values.list (dropFirst vs key) key' = if key' = key then (vs.list key).tail else vs.list key' := by
  unfold dropFirst
  split
  · next none => rw [Url.Values.list_erase, none]; rfl
  · next value one => rw [Url.Values.list_erase, one]; rfl
  · next first rest _ more => rw [Url.Values.list_insert, more]; rfl

theorem proper_dropFirst {vs : Values} (proper : vs.Proper) (key : GoString) :
    Values.Proper (dropFirst vs key) := by
  unfold dropFirst
  split
  · exact proper.erase key
  · exact proper.erase key
  · next first rest several _ => exact proper.insert key several

namespace Magnet

theorem list_params (h : Hash) (q : Values) (key : GoString) :
    (ofQuery h q).params.list key =
      if key = str "tr" then []
      else if key = str "xt" ∨ key = str "dn" then (q.list key).tail
      else q.list key := by
  unfold ofQuery
  dsimp only
  rw [Url.Values.list_erase]
  by_cases tr : key = str "tr"
  · rw [if_pos tr, if_pos tr]
  rw [if_neg tr, if_neg tr, list_dropFirst]
  by_cases dn : key = str "dn"
  · subst dn
    rw [if_pos rfl, if_pos (.inr rfl), list_dropFirst, if_neg (by decide)]
  rw [if_neg dn, list_dropFirst]
  by_cases xt : key = str "xt"
  · subst xt
    rw [if_pos rfl, if_pos (.inl rfl)]
  · rw [if_neg xt, if_neg fun either => either.elim xt dn]

theorem trackers_ofQuery (h : Hash) (q : Values) : (ofQuery h q).trackers = q.list (str "tr") := by
  unfold ofQuery
  dsimp only
  rw [list_dropFirst, if_neg (by decide), list_dropFirst, if_neg (by decide)]

theorem displayName_ofQuery (h : Hash) (q : Values) :
    (ofQuery h q).displayName = (q.list (str "dn")).headD [] := by
  unfold ofQuery
  dsimp only
  rw [Url.Values.get, list_dropFirst, if_neg (by decide)]

theorem proper_params {q : Values} (proper : q.Proper) (h : Hash) :
    (ofQuery h q).params.Proper :=
  (proper_dropFirst (proper_dropFirst proper _) _).erase _

theorem list_values (m : Magnet) (key : GoString) :
    m.values.list key = m.params.list key ++
      ((if key = str "tr" then m.trackers else []) ++
        if key = str "dn" ∧ m.displayName ≠ [] then [m.displayName] else []) := by
  have added : (m.trackers.foldl (fun vs tr => vs.add (str "tr") tr) m.params).list key =
      m.params.list key ++ if key = str "tr" then m.trackers else [] := by
    have pairs := Url.Values.list_foldl_add m.params (m.trackers.map fun tr => (str "tr", tr)) key
    rw [List.foldl_map] at pairs
    refine pairs.trans (congrArg _ ?_)
    by_cases tr : key = str "tr"
    · rw [if_pos tr, List.filter_eq_self.mpr, List.map_map]
      · exact List.map_id' _
      · intro pair member
        obtain ⟨_, _, rfl⟩ := List.mem_map.mp member
        exact decide_eq_true tr.symm
    · rw [if_neg tr, List.filter_eq_nil_iff.mpr]
      · rfl
      · intro pair member
        obtain ⟨_, _, rfl⟩ := List.mem_map.mp member
        simpa using Ne.symm tr
  rw [← List.append_assoc, ← added, values]
  by_cases named : m.displayName ≠ []
  · rw [if_pos named, Url.Values.list_add]
    by_cases dn : key = str "dn"
    · rw [if_pos dn.symm, if_pos ⟨dn, named⟩]
    · rw [if_neg (Ne.symm dn), if_neg fun both => dn both.1]
  · rw [if_neg named, if_neg fun both => named both.2, List.append_nil]

/-! ### Writing and parsing again -/

theorem plain_front (h : Hash) :
    ∀ c ∈ str "xt" ++ 61 :: (xtPrefix ++ Hex.encode h.bytes),
      (c ≠ 37 ∧ c ≠ 43 ∧ c ≠ 38 ∧ c ≠ 59) ∧ Url.IsPlain c := by
  have front : ∀ c ∈ str "xt" ++ 61 :: xtPrefix,
      (c ≠ 37 ∧ c ≠ 43 ∧ c ≠ 38 ∧ c ≠ 59) ∧ Url.IsPlain c := by decide +kernel
  have digits : ∀ n < 16, (digit n ≠ 37 ∧ digit n ≠ 43 ∧ digit n ≠ 38 ∧ digit n ≠ 59) ∧
      Url.IsPlain (digit n) := by decide
  intro c member
  rw [← List.cons_append, ← List.append_assoc] at member
  rcases List.mem_append.mp member with inside | inside
  · exact front c inside
  · obtain ⟨b, _, here⟩ := List.mem_flatMap.mp inside
    have bound := b.toNat_lt
    rcases List.mem_pair.mp here with rfl | rfl
    · exact digits _ (by omega)
    · exact digits _ (Nat.mod_lt _ (by decide))

theorem plain_rawQuery (m : Magnet) : ∀ c ∈ m.rawQuery, Url.IsPlain c := by
  intro c member
  rcases List.mem_append.mp member with inside | inside
  · exact (plain_front m.infoHash c inside).2
  · split at inside
    · rcases List.mem_cons.mp inside with rfl | later
      · decide
      · exact Url.encode_plain m.values c later
    · exact absurd inside List.not_mem_nil

/-- **The query of a link that is written**: the hash is the first value of `xt`. -/
theorem list_rawQuery (m : Magnet) (key : GoString) :
    (parseQuery m.rawQuery).list key =
      (if str "xt" = key then [xtPrefix ++ Hex.encode m.infoHash.bytes] else []) ++
        m.values.list key := by
  have plain := fun c member => (plain_front m.infoHash c member).1
  have noSign : ∀ c ∈ str "xt", c ≠ 61 := by decide +kernel
  unfold rawQuery
  split
  · exact Url.list_parseQuery_encode plain noSign m.values key
  · next none =>
      have empty : m.values.list key = [] := by
        have nothing : m.values.entries = [] := List.length_eq_zero_iff.mp (not_not.mp none)
        rw [Url.Values.list, AList.lookup, nothing]
        rfl
      rw [List.append_nil, Url.list_parseQuery_single plain noSign, empty, List.append_nil]

theorem parseInfohash_hex (h : Hash) : parseInfohash (xtPrefix ++ Hex.encode h.bytes) = .ok h := by
  have front : xtPrefix.isPrefixOf (xtPrefix ++ Hex.encode h.bytes) = true :=
    List.isPrefixOf_iff_prefix.mpr (List.prefix_append _ _)
  have forty : (Hex.encode h.bytes).length = 40 := by
    rw [Hex.length_encode, h.size]
    rfl
  unfold parseInfohash
  rw [front, if_neg nofun, List.drop_left, if_pos forty, Hex.decode_encode]
  dsimp only
  rw [checkLength, if_neg (not_not.mpr (show h.bytes.length = 20 from h.size)), Hash.copyFrom_bytes]

theorem parse_string (urls : Urls) (m : Magnet) :
    parseMagnetURI urls m.string = .ok (ofQuery m.infoHash (parseQuery m.rawQuery)) := by
  have xt : (parseQuery m.rawQuery).get (str "xt") = xtPrefix ++ Hex.encode m.infoHash.bytes := by
    rw [Url.Values.get, list_rawQuery, if_pos rfl]
    rfl
  unfold parseMagnetURI string
  rw [urls.parse_magnet _ (plain_rawQuery m)]
  dsimp only
  rw [if_neg (not_not.mpr rfl), xt, parseInfohash_hex]

/-- The links are the same, with the values of every key in order. -/
structure Same (m m' : Magnet) : Prop where
  infoHash : m.infoHash = m'.infoHash
  trackers : m.trackers = m'.trackers
  displayName : m.displayName = m'.displayName
  params : ∀ key, m.params.lookup key = m'.params.lookup key

theorem concat_eq_cons_iff {α : Type} {d : α} {ds : List α} :
    ds ++ [d] = d :: ds ↔ ∀ x ∈ ds, x = d := by
  induction ds with
  | nil => simp
  | cons x ds ih =>
    rw [List.forall_mem_cons, ← ih, List.cons_append, List.cons.injEq]
    exact and_congr_right fun same => by rw [same]

/-- The values of `dn` come back in their places. -/
def NamesAgree : List GoString → Prop
  | [] => True
  | d :: ds => ds = [] ∨ d ≠ [] ∧ ∀ x ∈ ds, x = d

instance : DecidablePred NamesAgree
  | [] => isTrue trivial
  | d :: ds => inferInstanceAs (Decidable (ds = [] ∨ d ≠ [] ∧ ∀ x ∈ ds, x = d))

theorem namesAgree_iff {names written : List GoString}
    (moved : written = names.tail ++ if names.headD [] ≠ [] then [names.headD []] else []) :
    NamesAgree names ↔ written.headD [] = names.headD [] ∧ written.tail = names.tail := by
  subst moved
  cases names with
  | nil => exact iff_of_true trivial ⟨rfl, rfl⟩
  | cons d ds =>
    show ds = [] ∨ d ≠ [] ∧ (∀ x ∈ ds, x = d) ↔
      (ds ++ if d ≠ [] then [d] else []).headD [] = d ∧
        (ds ++ if d ≠ [] then [d] else []).tail = ds
    by_cases named : d ≠ []
    · rw [if_pos named, and_iff_right named, ← concat_eq_cons_iff]
      cases ds with
      | nil => simp
      | cons x ds => simp
    · rw [if_neg named, List.append_nil]
      cases ds with
      | nil => simpa using (not_not.mp named).symm
      | cons x ds => simp [named]

section Reparse

variable (h : Hash) (q : Values)

theorem list_rewritten {key : GoString} (tr : key ≠ str "tr") (dn : key ≠ str "dn") :
    (parseQuery (ofQuery h q).rawQuery).list key =
      (if str "xt" = key then [xtPrefix ++ Hex.encode h.bytes] else []) ++
        (ofQuery h q).params.list key := by
  have noName : ¬ (key = str "dn" ∧ (ofQuery h q).displayName ≠ []) := fun both => dn both.1
  rw [list_rawQuery, list_values, if_neg tr, if_neg noName, List.append_nil, List.append_nil]
  rfl

theorem trackers_rewritten :
    (parseQuery (ofQuery h q).rawQuery).list (str "tr") = (ofQuery h q).trackers := by
  have noName : ¬ (str "tr" = str "dn" ∧ (ofQuery h q).displayName ≠ []) :=
    fun both => absurd both.1 (by decide)
  rw [list_rawQuery, list_values, if_neg (by decide), if_pos rfl, if_neg noName, list_params,
    if_pos rfl, List.append_nil]
  rfl

theorem names_rewritten :
    (parseQuery (ofQuery h q).rawQuery).list (str "dn") = (q.list (str "dn")).tail ++
      if (q.list (str "dn")).headD [] ≠ [] then [(q.list (str "dn")).headD []] else [] := by
  rw [list_rawQuery, list_values, if_neg (by decide), if_neg (by decide), list_params,
    if_neg (by decide), if_pos (.inr rfl), displayName_ofQuery]
  simp only [List.nil_append, true_and]

theorem same_reparse_iff {q : Values} (proper : q.Proper) :
    Same (ofQuery h (parseQuery (ofQuery h q).rawQuery)) (ofQuery h q) ↔
      NamesAgree (q.list (str "dn")) := by
  rw [namesAgree_iff (names_rewritten h q), ← displayName_ofQuery h, ← displayName_ofQuery h]
  constructor
  · rintro ⟨_, _, displayName, params⟩
    refine ⟨displayName, ?_⟩
    have dn := congrArg (Option.getD · []) (params (str "dn"))
    change Values.list _ _ = Values.list _ _ at dn
    rwa [list_params, list_params, if_neg (by decide), if_pos (.inr rfl)] at dn
  · rintro ⟨displayName, names⟩
    refine ⟨rfl, ?_, displayName, fun key => ?_⟩
    · rw [trackers_ofQuery, trackers_rewritten]
    rw [(proper_params (Url.proper_parseQuery _) h).lookup_eq, (proper_params proper h).lookup_eq]
    have same : (ofQuery h (parseQuery (ofQuery h q).rawQuery)).params.list key =
        (ofQuery h q).params.list key := by
      rw [list_params]
      by_cases tr : key = str "tr"
      · rw [if_pos tr, list_params, if_pos tr]
      by_cases dn : key = str "dn"
      · subst dn
        rw [if_neg tr, if_pos (.inr rfl), names, list_params, if_neg tr, if_pos (.inr rfl)]
      rw [if_neg tr, list_rewritten h q tr dn]
      by_cases xt : key = str "xt"
      · subst xt
        rw [if_pos (.inl rfl), if_pos rfl]
        rfl
      · rw [if_neg fun either => either.elim xt dn, if_neg (Ne.symm xt)]
        rfl
    rw [same]

end Reparse

def namesOf (urls : Urls) (uri : GoString) : List GoString :=
  match urls.parse uri with
  | .error _ => []
  | .ok (_, query) => (parseQuery query).list (str "dn")

theorem parseMagnetURI_ok {urls : Urls} {uri : GoString} {m : Magnet}
    (accepted : parseMagnetURI urls uri = .ok m) :
    ∃ h q, q.Proper ∧ m = ofQuery h q ∧ namesOf urls uri = q.list (str "dn") := by
  unfold parseMagnetURI at accepted
  unfold namesOf
  split at accepted
  · cases accepted
  · next scheme query parsed =>
      split at accepted
      · cases accepted
      dsimp only at accepted
      split at accepted
      · cases accepted
      · cases accepted
      · next h _ =>
          cases accepted
          exact ⟨h, parseQuery query, Url.proper_parseQuery query, rfl, rfl⟩

/-- **When a link survives being written and parsed again.** What is written is accepted, with the
same hash and trackers; it is the same link exactly if the names agree. -/
theorem reparse_iff (urls : Urls) {uri : GoString} {m : Magnet}
    (accepted : parseMagnetURI urls uri = .ok m) :
    ∃ m', parseMagnetURI urls m.string = .ok m' ∧ m'.infoHash = m.infoHash ∧
      m'.trackers = m.trackers ∧ (m'.Same m ↔ NamesAgree (namesOf urls uri)) := by
  obtain ⟨h, q, proper, rfl, names⟩ := parseMagnetURI_ok accepted
  refine ⟨_, parse_string urls _, rfl, ?_, ?_⟩
  · rw [trackers_ofQuery]
    exact trackers_rewritten h q
  · rw [names]
    exact same_reparse_iff h proper

end Magnet

/-- A `url.Parse` for the links that `String` writes. -/
def magnetUrls : Urls where
  parse uri :=
    if (str "magnet:?").isPrefixOf uri ∧ uri.all fun c => Url.IsPlain c then
      .ok (str "magnet", uri.drop (str "magnet:?").length)
    else .error (str "not a magnet link")
  quote s := s
  parse_magnet query plain := by
    have front : (str "magnet:?").isPrefixOf (str "magnet:?" ++ query) = true :=
      List.isPrefixOf_iff_prefix.mpr (List.prefix_append _ _)
    have start : ((str "magnet:?").all fun c => Url.IsPlain c) = true := by decide
    have rest : (query.all fun c => Url.IsPlain c) = true :=
      List.all_eq_true.mpr fun c member => decide_eq_true (plain c member)
    rw [if_pos ⟨front, by rw [List.all_append, start, rest]; rfl⟩, List.drop_left]

/-- How a link is refused, if it is. -/
def refusalOf : Except Refusal Magnet → Option Refusal
  | .ok _ => none
  | .error refusal => some refusal

theorem eq_error_of_refusalOf {result : Except Refusal Magnet} {refusal : Refusal}
    (check : refusalOf result = some refusal) : result = .error refusal := by
  cases result with
  | ok m => cases check
  | error other => exact congrArg _ (Option.some.inj check)

/-- A link with two names and a second `xt`. -/
def sampleLink (first second : String) : GoString :=
  str "magnet:?xt=urn:btih:" ++ Hex.encode (Hash.fill 5).bytes ++ str "&dn=" ++ str first ++
    str "&xt=urn:x&dn=" ++ str second ++ str "&tr=a&tr=b"

/-- The result is a link with a property. -/
def okWith (P : Magnet → Bool) : Except Refusal Magnet → Bool
  | .ok m => P m
  | .error _ => false

theorem exists_of_okWith {P : Magnet → Bool} {result : Except Refusal Magnet}
    (check : okWith P result = true) : ∃ m, result = .ok m ∧ P m = true := by
  cases result with
  | ok m => exact ⟨m, rfl, check⟩
  | error _ => cases check

theorem equal_names_reparse :
    ∃ m m', parseMagnetURI magnetUrls (sampleLink "a" "a") = .ok m ∧
      parseMagnetURI magnetUrls m.string = .ok m' ∧ m'.Same m := by
  have check : okWith (fun _ => true) (parseMagnetURI magnetUrls (sampleLink "a" "a")) = true := by
    decide +kernel
  obtain ⟨m, accepted, _⟩ := exists_of_okWith check
  obtain ⟨m', again, _, _, same⟩ := Magnet.reparse_iff magnetUrls accepted
  exact ⟨m, m', accepted, again, same.mpr (by decide +kernel)⟩

/-- With the names `a` and `b`, the link has the name `b` after it is written and parsed again. -/
theorem names_swapped :
    ∃ m m', parseMagnetURI magnetUrls (sampleLink "a" "b") = .ok m ∧
      parseMagnetURI magnetUrls m.string = .ok m' ∧ m.displayName = str "a" ∧
      m.params.list (str "dn") = [str "b"] ∧ m'.displayName = str "b" ∧
      m'.params.list (str "dn") = [str "a"] := by
  have check : okWith (fun m => m.displayName == str "a" && m.params.list (str "dn") == [str "b"] &&
      okWith (fun m' => m'.displayName == str "b" && m'.params.list (str "dn") == [str "a"])
        (parseMagnetURI magnetUrls m.string))
      (parseMagnetURI magnetUrls (sampleLink "a" "b")) = true := by
    decide +kernel
  obtain ⟨m, accepted, rest⟩ := exists_of_okWith check
  rw [Bool.and_eq_true, Bool.and_eq_true] at rest
  obtain ⟨⟨name, names⟩, again⟩ := rest
  obtain ⟨m', parsed, rest'⟩ := exists_of_okWith again
  rw [Bool.and_eq_true] at rest'
  exact ⟨m, m', accepted, parsed, eq_of_beq name, eq_of_beq names, eq_of_beq rest'.1,
    eq_of_beq rest'.2⟩

/-- 31 characters and a padding are 19 bytes. -/
theorem padded_link_panics :
    parseMagnetURI magnetUrls
      (str "magnet:?xt=urn:btih:" ++ List.replicate 31 65 ++ [61]) = .error (.panicked 19) := by
  have check : refusalOf (parseMagnetURI magnetUrls
      (str "magnet:?xt=urn:btih:" ++ List.replicate 31 65 ++ [61])) = some (.panicked 19) := by
    decide +kernel
  exact eq_error_of_refusalOf check

end GoBt.Metainfo
