/-
**What the text of an address says.**

The managers of the DHT server file nodes under `addr.String()`. The text has one of four forms, by
the length and the family of the IP, and each form can be read back.

* `ipv6Pieces` — the pieces between the colons of an IPv6 text; `ipv6Pieces_injective`: they
  determine the groups, the run of zeros behind `::` included.
* `IpText` — the four forms, each with a character that no other form has.
* **`Addr.equal_of_string_eq`** — two addresses with the same text have the same port and the same
  IP.
* `le_of_mem_string`, `seven_le_length_string`, `eighteen_lt_length_string` — the characters and the
  sizes of the texts.
-/

import GoBt.Go.Numerals
import GoBt.Krpc.Addr
import Mathlib.Data.List.TakeWhile

namespace GoBt.Krpc

/-! ### Joining -/

section Join

variable {separator : UInt8} {pieces : List GoString}

theorem joinWith_eq_intercalate (separator : GoString) (pieces : List GoString) :
    joinWith separator pieces = separator.intercalate pieces := by
  induction pieces with
  | nil => rfl
  | cons piece rest ih =>
    cases rest with
    | nil => simp [joinWith, List.intercalate]
    | cons next rest =>
      show piece ++ separator ++ joinWith separator (next :: rest) = _
      rw [ih]
      simp [List.intercalate]

theorem splitOn_joinWith (clean : ∀ piece ∈ pieces, separator ∉ piece) (some' : pieces ≠ []) :
    (joinWith [separator] pieces).splitOn separator = pieces := by
  rw [joinWith_eq_intercalate]
  exact List.splitOn_intercalate separator clean some'

theorem joinWith_append (separator : GoString) {front back : List GoString} (some' : front ≠ [])
    (more : back ≠ []) :
    joinWith separator (front ++ back) =
      joinWith separator front ++ separator ++ joinWith separator back := by
  induction front with
  | nil => exact absurd rfl some'
  | cons piece rest ih =>
    cases rest with
    | nil =>
      obtain ⟨next, others, rfl⟩ := List.exists_cons_of_ne_nil more
      rfl
    | cons next rest =>
      show piece ++ separator ++ joinWith separator ((next :: rest) ++ back) =
        piece ++ separator ++ joinWith separator (next :: rest) ++ separator ++ _
      rw [ih (List.cons_ne_nil _ _)]
      simp only [List.append_assoc]

theorem mem_joinWith {separator : GoString} {c : UInt8} (member : c ∈ joinWith separator pieces) :
    c ∈ separator ∨ ∃ piece ∈ pieces, c ∈ piece := by
  induction pieces with
  | nil => cases member
  | cons piece rest ih =>
    cases rest with
    | nil => exact Or.inr ⟨piece, List.mem_cons_self, member⟩
    | cons next rest =>
      rcases List.mem_append.mp member with front | behind
      · rcases List.mem_append.mp front with first | between
        · exact Or.inr ⟨piece, List.mem_cons_self, first⟩
        · exact Or.inl between
      · rcases ih behind with between | ⟨other, inside, found⟩
        · exact Or.inl between
        · exact Or.inr ⟨other, List.mem_cons_of_mem _ inside, found⟩

/-- The pieces, or one empty piece: the same text. -/
def padded (pieces : List GoString) : List GoString := if pieces = [] then [[]] else pieces

theorem padded_ne_nil (pieces : List GoString) : padded pieces ≠ [] := by
  unfold padded
  split
  · exact List.cons_ne_nil _ _
  · assumption

theorem joinWith_padded (separator : GoString) (pieces : List GoString) :
    joinWith separator (padded pieces) = joinWith separator pieces := by
  unfold padded
  split
  · rename_i empty
    rw [empty]
    rfl
  · rfl

theorem mem_padded {piece : GoString} (member : piece ∈ padded pieces) :
    piece ∈ pieces ∨ piece = [] := by
  unfold padded at member
  split at member
  · exact Or.inr (List.mem_singleton.mp member)
  · exact Or.inl member

theorem padded_injective {pieces' : List GoString} (full : [] ∉ pieces) (full' : [] ∉ pieces')
    (same : padded pieces = padded pieces') : pieces = pieces' := by
  unfold padded at same
  split at same
  · split at same
    · rename_i empty empty'
      rw [empty, empty']
    · rw [← same] at full'
      exact absurd List.mem_cons_self full'
  · split at same
    · rw [same] at full
      exact absurd List.mem_cons_self full
    · exact same

theorem padded_gap_injective {front back front' back' : List GoString}
    (full : [] ∉ front) (full' : [] ∉ front') (more : [] ∉ back) (more' : [] ∉ back')
    (same : padded front ++ [] :: padded back = padded front' ++ [] :: padded back') :
    front = front' ∧ back = back' := by
  have before : ∀ pieces rest : List GoString, [] ∉ pieces →
      (padded pieces ++ [] :: rest).takeWhile (fun piece => piece ≠ []) = pieces := by
    intro pieces rest full
    unfold padded
    split
    · rename_i empty
      rw [empty]
      rfl
    · rw [List.takeWhile_append_of_pos]
      · simp
      · intro piece member
        exact decide_eq_true fun empty => full (empty ▸ member)
  have sameFront : front = front' := by
    rw [← before front _ full, same, before front' _ full']
  subst sameFront
  have behind := (List.cons.inj (List.append_cancel_left same)).2
  exact ⟨rfl, padded_injective more more' behind⟩

end Join

/-! ### IPv6 texts -/

theorem eq_replicate_zeroRun (groups : List Nat) :
    groups = List.replicate (zeroRun groups) 0 ++ groups.drop (zeroRun groups) := by
  have zeros : groups.takeWhile (· == 0) = List.replicate (zeroRun groups) 0 :=
    List.eq_replicate_iff.mpr ⟨rfl, fun group member => by
      simpa using List.mem_takeWhile_imp member⟩
  have rest : groups.drop (zeroRun groups) = groups.dropWhile (· == 0) := by
    have whole : groups.takeWhile (· == 0) ++ groups.dropWhile (· == 0) = groups :=
      List.takeWhile_append_dropWhile
    calc groups.drop (zeroRun groups)
        = (groups.takeWhile (· == 0) ++ groups.dropWhile (· == 0)).drop (zeroRun groups) := by
          rw [whole]
      _ = groups.dropWhile (· == 0) := List.drop_left
  rw [rest, ← zeros, List.takeWhile_append_dropWhile]

/-- What a run found in the groups is: the groups from `start` to `stop` are zero. -/
def IsZeroRun (groups : List Nat) (run : Nat × Nat) : Prop :=
  groups = groups.take run.1 ++ List.replicate (run.2 - run.1) 0 ++ groups.drop run.2

theorem isZeroRun_zeroRun (groups : List Nat) (i : Nat) :
    IsZeroRun groups (i, i + zeroRun (groups.drop i)) := by
  have zeros := eq_replicate_zeroRun (groups.drop i)
  unfold IsZeroRun
  rw [Nat.add_sub_cancel_left, ← List.drop_drop, List.append_assoc, ← zeros, List.take_append_drop]

theorem isZeroRun_longestZeroRun {groups : List Nat} {run : Nat × Nat}
    (found : longestZeroRun groups = some run) : IsZeroRun groups run := by
  -- whatever indices are tried, what is best so far is a run of zeros
  have loop : ∀ (indices : List Nat) (best : Option (Nat × Nat)),
      (∀ run, best = some run → IsZeroRun groups run) →
      ∀ run, indices.foldl (fun best i =>
        let run := zeroRun (groups.drop i)
        if 2 ≤ run ∧ (best.elim 0 fun found => found.2 - found.1) < run then some (i, i + run)
        else best) best = some run → IsZeroRun groups run := by
    intro indices
    induction indices with
    | nil => exact fun best fine => fine
    | cons i rest ih =>
      intro best fine
      refine ih _ fun run chosen => ?_
      dsimp only at chosen
      split at chosen
      · obtain rfl := Option.some.inj chosen
        exact isZeroRun_zeroRun groups i
      · exact fine run chosen
  exact loop _ none nofun run found

def groupTexts (groups : List Nat) : List GoString := groups.map (numeral 16)

theorem groupTexts_full (groups : List Nat) : [] ∉ groupTexts groups := by
  intro member
  obtain ⟨group, _, empty⟩ := List.mem_map.mp member
  exact numeral_nonempty (by decide) group empty

theorem groupTexts_injective : Function.Injective groupTexts :=
  List.map_injective_iff.mpr (numeral_injective (by decide) (by decide))

/-- The pieces between the colons of the text. -/
def ipv6Pieces (groups : List Nat) : List GoString :=
  match longestZeroRun groups with
  | some (start, stop) =>
      padded (groupTexts (groups.take start)) ++ [] :: padded (groupTexts (groups.drop stop))
  | none => groupTexts groups

theorem ipv6String_eq (ip : Ip) : ipv6String ip = joinWith [58] (ipv6Pieces (ipGroups ip)) := by
  unfold ipv6String ipv6Pieces
  dsimp only
  cases longestZeroRun (ipGroups ip) with
  | none => rfl
  | some run =>
    rw [joinWith_append _ (padded_ne_nil _) (List.cons_ne_nil _ _),
      show ∀ others : List GoString, [] :: others = [[]] ++ others from fun _ => rfl,
      joinWith_append _ (List.cons_ne_nil _ _) (padded_ne_nil _), joinWith_padded, joinWith_padded]
    simp only [List.append_assoc]
    rfl

/-- **The pieces determine the groups.** -/
theorem ipv6Pieces_injective {groups groups' : List Nat} (size : groups.length = groups'.length)
    (same : ipv6Pieces groups = ipv6Pieces groups') : groups = groups' := by
  unfold ipv6Pieces at same
  split at same
  · rename_i start stop found
    split at same
    · rename_i start' stop' found'
      obtain ⟨front, back⟩ := padded_gap_injective (groupTexts_full _) (groupTexts_full _)
        (groupTexts_full _) (groupTexts_full _) same
      have split := isZeroRun_longestZeroRun found
      have split' := isZeroRun_longestZeroRun found'
      unfold IsZeroRun at split split'
      dsimp only at split split'
      rw [groupTexts_injective front, groupTexts_injective back] at split
      have length := congrArg List.length split
      have length' := congrArg List.length split'
      rw [List.length_append, List.length_append, List.length_replicate] at length length'
      have zeros : stop - start = stop' - start' := by omega
      rw [split, zeros, ← split']
    · exact absurd (same ▸ List.mem_append_right _ List.mem_cons_self) (groupTexts_full groups')
  · split at same
    · exact absurd (same ▸ List.mem_append_right _ List.mem_cons_self) (groupTexts_full groups)
    · exact groupTexts_injective same

theorem ipGroups_injective {ip ip' : Ip} (size : ip.length = ip'.length)
    (even : ip.length % 2 = 0) (same : ipGroups ip = ipGroups ip') : ip = ip' := by
  induction ip using ipGroups.induct generalizing ip' with
  | case1 high low rest ih =>
    obtain ⟨high', more, rfl⟩ := List.exists_cons_of_length_eq_add_one size.symm
    obtain ⟨low', rest', rfl⟩ :=
      List.exists_cons_of_length_eq_add_one (Nat.succ.inj size).symm
    obtain ⟨group, others⟩ := List.cons.inj same
    have small := low.toNat_lt
    have small' := low'.toNat_lt
    have sameHigh : high = high' := UInt8.toNat_inj.mp (by omega)
    have sameLow : low = low' := UInt8.toNat_inj.mp (by omega)
    simp only [List.length_cons] at size even
    rw [sameHigh, sameLow, ih (by omega) (by omega) others]
  | case2 ip short =>
    match ip, ip', size with
    | [], [], _ => rfl
    | [_], _, _ => cases even
    | high :: low :: rest, _, _ => exact absurd rfl (short high low rest)

/-! ### The forms of an IP text -/

/-- The forms of an IP text. -/
inductive Form
  | unset
  | hex
  | dotted
  | colons
  deriving DecidableEq

/-- The character by which a form is recognised. -/
def Form.mark : Form → UInt8
  | .unset => 60
  | .hex => 63
  | .dotted => 46
  | .colons => 58

/-- The other characters: hexadecimal digits, and those of the text for no address. -/
def Plain (c : UInt8) : Prop :=
  (48 ≤ c.toNat ∧ c.toNat ≤ 57) ∨ (97 ≤ c.toNat ∧ c.toNat ≤ 102) ∨ c ∈ str "nil>"

instance (c : UInt8) : Decidable (Plain c) := by
  unfold Plain
  infer_instance

theorem Form.mark_not_plain (form : Form) : ¬ Plain form.mark := by
  cases form <;> decide

theorem Form.mark_injective {form other : Form} (same : form.mark = other.mark) : form = other := by
  cases form <;> cases other <;> first | rfl | exact absurd same (by decide)

theorem plain_digit {value : Nat} (small : value < 16) : Plain (digit value) := by
  have toNat := digit_toNat (show value < 36 by omega)
  by_cases decimal : value < 10
  · rw [if_pos decimal] at toNat
    exact Or.inl (by omega)
  · rw [if_neg decimal] at toNat
    exact Or.inr (Or.inl (by omega))

theorem plain_of_mem_numeral {base n : Nat} {c : UInt8} (two : 2 ≤ base) (most : base ≤ 16)
    (member : c ∈ numeral base n) : Plain c := by
  obtain ⟨value, small, rfl⟩ := mem_numeral two member
  exact plain_digit (by omega)

theorem plain_of_mem_hex {bytes : List UInt8} {c : UInt8} (member : c ∈ Hex.encode bytes) :
    Plain c := by
  obtain ⟨byte, _, inside⟩ := List.mem_flatMap.mp member
  have bound := byte.toNat_lt
  rcases List.mem_pair.mp inside with rfl | rfl
  · exact plain_digit (by omega)
  · exact plain_digit (by omega)

theorem plain_of_mem_ipv6Pieces {groups : List Nat} {piece : GoString} {c : UInt8}
    (inside : piece ∈ ipv6Pieces groups) (member : c ∈ piece) : Plain c := by
  have texts : ∀ part : List Nat, piece ∈ groupTexts part → Plain c := by
    intro part found
    obtain ⟨group, _, rfl⟩ := List.mem_map.mp found
    exact plain_of_mem_numeral (by decide) le_rfl member
  have pads : ∀ part : List Nat, piece ∈ padded (groupTexts part) → Plain c := by
    intro part found
    rcases mem_padded found with text | rfl
    · exact texts part text
    · cases member
  unfold ipv6Pieces at inside
  split at inside
  · rcases List.mem_append.mp inside with front | behind
    · exact pads _ front
    · rcases List.mem_cons.mp behind with rfl | back
      · cases member
      · exact pads _ back
  · exact texts _ inside

/-- The text of an IPv4 address in its 4-byte form. -/
def dottedText (v4 : Ip) : GoString := joinWith [46] (v4.map fun byte => numeral 10 byte.toNat)

theorem plain_of_mem_dotted {v4 : Ip} {piece : GoString} {c : UInt8}
    (inside : piece ∈ v4.map fun byte => numeral 10 byte.toNat) (member : c ∈ piece) :
    Plain c := by
  obtain ⟨byte, _, rfl⟩ := List.mem_map.mp inside
  exact plain_of_mem_numeral (by decide) (by decide) member

/-- The text of an IP in one of the forms. -/
inductive IpText (ip : Ip) : Form → GoString → Prop
  | unset (empty : ip = []) : IpText ip .unset (str "<nil>")
  | hex (four : ip.length ≠ 4) (sixteen : ip.length ≠ 16) :
      IpText ip .hex (63 :: Hex.encode ip)
  | dotted {v4 : Ip} (family : ip.to4 = some v4) : IpText ip .dotted (dottedText v4)
  | colons (size : ip.length = 16) (family : ip.to4 = none) :
      IpText ip .colons (joinWith [58] (ipv6Pieces (ipGroups ip)))

theorem ipText_string (ip : Ip) : ∃ form, IpText ip form ip.string := by
  unfold Ip.string
  split
  · exact ⟨_, .unset (List.length_eq_zero_iff.mp ‹_›)⟩
  · split
    · rename_i invalid
      exact ⟨_, .hex invalid.1 invalid.2⟩
    · rename_i valid
      split
      · exact ⟨_, .dotted ‹_›⟩
      · rename_i family
        have size : ip.length = 16 := by
          by_contra other
          have four : ip.length = 4 := by omega
          rw [Ip.to4, if_pos four] at family
          cases family
        rw [ipv6String_eq]
        exact ⟨_, .colons size family⟩

section Text

variable {ip : Ip} {form : Form} {text : GoString}

theorem IpText.mem {c : UInt8} (written : IpText ip form text) (member : c ∈ text) :
    c = form.mark ∨ Plain c := by
  cases written with
  | unset _ =>
    rcases List.mem_cons.mp member with mark | others
    · exact Or.inl mark
    · exact Or.inr (Or.inr (Or.inr others))
  | hex _ _ =>
    rcases List.mem_cons.mp member with mark | digits
    · exact Or.inl mark
    · exact Or.inr (plain_of_mem_hex digits)
  | dotted _ =>
    rcases mem_joinWith member with mark | ⟨piece, inside, found⟩
    · exact Or.inl (List.mem_singleton.mp mark)
    · exact Or.inr (plain_of_mem_dotted inside found)
  | colons _ _ =>
    rcases mem_joinWith member with mark | ⟨piece, inside, found⟩
    · exact Or.inl (List.mem_singleton.mp mark)
    · exact Or.inr (plain_of_mem_ipv6Pieces inside found)

theorem mem_joinWith_of_two {separator : UInt8} {first second : GoString} {rest : List GoString} :
    separator ∈ joinWith [separator] (first :: second :: rest) :=
  List.mem_append_left _ (List.mem_append_right _ List.mem_cons_self)

theorem length_ipGroups (ip : Ip) : (ipGroups ip).length = ip.length / 2 := by
  induction ip using ipGroups.induct with
  | case1 high low rest ih =>
    rw [ipGroups, List.length_cons, ih, List.length_cons, List.length_cons]
    omega
  | case2 ip short =>
    match ip, short with
    | [], _ => rfl
    | [_], _ => simp [ipGroups]
    | high :: low :: rest, short => exact absurd rfl (short high low rest)

theorem two_le_length_ipv6Pieces {ip : Ip} (size : ip.length = 16) :
    2 ≤ (ipv6Pieces (ipGroups ip)).length := by
  unfold ipv6Pieces
  split
  · rename_i start stop _
    have front := List.length_pos_of_ne_nil (padded_ne_nil (groupTexts ((ipGroups ip).take start)))
    rw [List.length_append, List.length_cons]
    omega
  · rw [groupTexts, List.length_map, length_ipGroups, size]
    decide

theorem IpText.mark_mem (written : IpText ip form text) : form.mark ∈ text := by
  cases written with
  | unset _ | hex _ _ => exact List.mem_cons_self
  | dotted family =>
    rename_i v4
    match v4, Ip.length_to4 family with
    | [a, b, c, d], _ => exact mem_joinWith_of_two
  | colons size _ =>
    match ipv6Pieces (ipGroups ip), two_le_length_ipv6Pieces size with
    | first :: second :: rest, _ => exact mem_joinWith_of_two

theorem IpText.form_of_mark_mem {other : Form} (written : IpText ip form text)
    (member : other.mark ∈ text) : other = form := by
  rcases written.mem member with same | plain
  · exact Form.mark_injective same
  · exact absurd plain other.mark_not_plain

theorem IpText.no_bracket {c : UInt8} (written : IpText ip form text) (bracket : c = 91 ∨ c = 93) :
    c ∉ text := by
  intro member
  rcases written.mem member with mark | plain
  · rcases bracket with rfl | rfl <;> cases form <;> exact absurd mark (by decide)
  · rcases bracket with rfl | rfl <;> exact absurd plain (by decide)

end Text

/-! ### Reading an IP back -/

theorem Ip.equal_self (ip : Ip) : ip.equal ip = true := by
  simp [Ip.equal]

theorem Ip.equal_of_to4 {ip ip' v4 : Ip} (found : ip.to4 = some v4) (found' : ip'.to4 = some v4) :
    ip.equal ip' = true := by
  have mapped : ∀ {ip v4 : Ip}, ip.to4 = some v4 →
      (ip.length = 4 ∧ ip = v4) ∨ (ip.length = 16 ∧ ip = v4InV6Prefix ++ v4) := by
    intro ip v4 found
    unfold Ip.to4 at found
    split at found
    · exact Or.inl ⟨‹_›, Option.some.inj found⟩
    · split at found
      · rename_i form
        refine Or.inr ⟨form.1, ?_⟩
        rw [← form.2, ← Option.some.inj found, List.take_append_drop]
      · cases found
  have size := Ip.length_to4 found
  rcases mapped found with ⟨four, rfl⟩ | ⟨sixteen, rfl⟩
  · rcases mapped found' with ⟨_, rfl⟩ | ⟨_, rfl⟩
    · exact Ip.equal_self _
    · simp [Ip.equal, v4InV6Prefix, size]
  · rcases mapped found' with ⟨_, rfl⟩ | ⟨_, rfl⟩
    · simp [Ip.equal, v4InV6Prefix, size]
    · exact Ip.equal_self _

theorem dottedText_injective {v4 v4' : Ip} (size : v4.length = 4) (size' : v4'.length = 4)
    (same : dottedText v4 = dottedText v4') : v4 = v4' := by
  have clean : ∀ (v4 : Ip), ∀ piece ∈ v4.map fun byte => numeral 10 byte.toNat, 46 ∉ piece :=
    fun v4 piece inside member => absurd (plain_of_mem_dotted inside member) (by decide)
  have pieces := congrArg (List.splitOn 46) same
  unfold dottedText at pieces
  rw [splitOn_joinWith (clean v4) (by simp [← List.length_pos_iff, size]),
    splitOn_joinWith (clean v4') (by simp [← List.length_pos_iff, size'])] at pieces
  refine List.map_injective_iff.mpr (fun byte byte' same => ?_) pieces
  exact UInt8.toNat_inj.mp (numeral_injective (by decide) (by decide) same)

/-- **Two IPs with the same text are equal.** -/
theorem Ip.equal_of_string_eq {ip ip' : Ip} (same : ip.string = ip'.string) :
    ip.equal ip' = true := by
  obtain ⟨form, written⟩ := ipText_string ip
  obtain ⟨form', written'⟩ := ipText_string ip'
  rw [← same] at written'
  obtain rfl := written'.form_of_mark_mem written.mark_mem
  generalize ip.string = text at written written'
  cases written with
  | unset empty =>
    cases written' with
    | unset empty' =>
      rw [empty, empty']
      rfl
  | hex _ _ =>
    generalize texts : 63 :: Hex.encode ip = text at written'
    cases written' with
    | hex _ _ =>
      rw [Hex.encode_injective (List.cons.inj texts).2]
      exact Ip.equal_self _
  | dotted family =>
    rename_i v4
    generalize texts : dottedText v4 = text at written'
    cases written' with
    | dotted family' =>
      have sameBytes :=
        dottedText_injective (Ip.length_to4 family) (Ip.length_to4 family') texts
      exact Ip.equal_of_to4 family (sameBytes ▸ family')
  | colons size family =>
    generalize texts : joinWith [58] (ipv6Pieces (ipGroups ip)) = text at written'
    cases written' with
    | colons size' family' =>
      have clean : ∀ groups, ∀ piece ∈ ipv6Pieces groups, 58 ∉ piece :=
        fun groups piece inside member =>
          absurd (plain_of_mem_ipv6Pieces inside member) (by decide)
      have some' : ∀ ip : Ip, ip.length = 16 → ipv6Pieces (ipGroups ip) ≠ [] := by
        intro ip size
        have two := two_le_length_ipv6Pieces size
        exact List.length_pos_iff.mp (by omega)
      have pieces := congrArg (List.splitOn 58) texts
      rw [splitOn_joinWith (clean _) (some' ip size),
        splitOn_joinWith (clean _) (some' ip' size')] at pieces
      have groups := ipv6Pieces_injective
        (by rw [length_ipGroups, length_ipGroups, size, size']) pieces
      rw [ipGroups_injective (size.trans size'.symm) (by rw [size]) groups]
      exact Ip.equal_self _

/-! ### Reading an address back -/

/-- The text of an address: without its port, with it, or with it behind brackets. -/
inductive AddrText (a : Addr) : GoString → Prop
  | bare (zero : a.port = 0) : AddrText a a.ip.string
  | plain (some' : a.port ≠ 0) (noColon : 58 ∉ a.ip.string) :
      AddrText a (a.ip.string ++ 58 :: numeral 10 a.port.toNat)
  | bracketed (some' : a.port ≠ 0) (colon : 58 ∈ a.ip.string) :
      AddrText a (91 :: (a.ip.string ++ 93 :: 58 :: numeral 10 a.port.toNat))

theorem addrText_string (a : Addr) : AddrText a a.string := by
  unfold Addr.string joinHostPort
  split
  · exact .bare ‹_›
  · split
    · rw [List.append_assoc, List.append_assoc]
      exact .bracketed ‹_› ‹_›
    · rw [List.append_assoc]
      exact .plain ‹_› ‹_›

theorem not_mem_portText {port : UInt16} {c : UInt8} (other : ¬ Plain c) :
    c ∉ numeral 10 port.toNat :=
  fun member => other (plain_of_mem_numeral (by decide) (by decide) member)

theorem portText_injective {port port' : UInt16}
    (same : numeral 10 port.toNat = numeral 10 port'.toNat) : port = port' :=
  UInt16.toNat_inj.mp (numeral_injective (by decide) (by decide) same)

theorem no_bracket_string (ip : Ip) {c : UInt8} (bracket : c = 91 ∨ c = 93) : c ∉ ip.string := by
  obtain ⟨form, written⟩ := ipText_string ip
  exact written.no_bracket bracket

theorem string_ne_plain {ip ip' : Ip} (noColon : 58 ∉ ip'.string) (port : GoString) :
    ip.string ≠ ip'.string ++ 58 :: port := by
  intro same
  obtain ⟨form, written⟩ := ipText_string ip
  obtain ⟨form', written'⟩ := ipText_string ip'
  have colon : Form.colons.mark ∈ ip.string := by
    rw [same]
    exact List.mem_append_right _ List.mem_cons_self
  have mark : form'.mark ∈ ip.string := by
    rw [same]
    exact List.mem_append_left _ written'.mark_mem
  have sameForm : form' = .colons :=
    (written.form_of_mark_mem mark).trans (written.form_of_mark_mem colon).symm
  have marked := written'.mark_mem
  rw [sameForm] at marked
  exact noColon marked

theorem ne_bracketed {text rest : GoString} (clean : 91 ∉ text) : text ≠ 91 :: rest :=
  fun same => clean (same ▸ List.mem_cons_self)

theorem no_bracket_plain (a : Addr) : 91 ∉ a.ip.string ++ 58 :: numeral 10 a.port.toNat := by
  intro member
  rcases List.mem_append.mp member with host | behind
  · exact no_bracket_string a.ip (Or.inl rfl) host
  · rcases List.mem_cons.mp behind with colon | port
    · exact absurd colon (by decide)
    · exact not_mem_portText (by decide) port

/-- **Two addresses with the same text have the same port and the same IP.** -/
theorem Addr.equal_of_string_eq {a o : Addr} (same : a.string = o.string) : a.equal o = true := by
  have conclude : a.ip.string = o.ip.string → a.port = o.port → a.equal o = true := by
    intro sameIp samePort
    rw [Addr.equal, samePort, beq_self_eq_true, Ip.equal_of_string_eq sameIp]
    rfl
  have written := addrText_string a
  have written' := addrText_string o
  generalize a.string = text at same written
  generalize o.string = text' at same written'
  cases written with
  | bare zero =>
    cases written' with
    | bare zero' => exact conclude same (zero.trans zero'.symm)
    | plain _ noColon => exact absurd same (string_ne_plain noColon _)
    | bracketed _ _ => exact absurd same (ne_bracketed (no_bracket_string a.ip (Or.inl rfl)))
  | plain _ noColon =>
    cases written' with
    | bare _ => exact absurd same.symm (string_ne_plain noColon _)
    | plain _ noColon' =>
      obtain ⟨host, _, port⟩ :=
        (List.append_cons_inj_of_notMem noColon (not_mem_portText (by decide))).mp same
      exact conclude host (portText_injective port)
    | bracketed _ _ => exact absurd same (ne_bracketed (no_bracket_plain a))
  | bracketed _ _ =>
    cases written' with
    | bare _ => exact absurd same.symm (ne_bracketed (no_bracket_string o.ip (Or.inl rfl)))
    | plain _ _ => exact absurd same.symm (ne_bracketed (no_bracket_plain o))
    | bracketed _ _ =>
      have behind : ∀ port : UInt16, 93 ∉ 58 :: numeral 10 port.toNat := by
        intro port member
        rcases List.mem_cons.mp member with colon | digits
        · exact absurd colon (by decide)
        · exact not_mem_portText (by decide) digits
      obtain ⟨host, _, port⟩ :=
        (List.append_cons_inj_of_notMem (no_bracket_string a.ip (Or.inr rfl))
          (behind a.port)).mp (List.cons.inj same).2
      exact conclude host (portText_injective (List.cons.inj port).2)

/-! ### Characters and sizes -/

theorem length_joinWith (separator : UInt8) {pieces : List GoString} (some' : pieces ≠ []) :
    (joinWith [separator] pieces).length + 1 = (pieces.map List.length).sum + pieces.length := by
  induction pieces with
  | nil => exact absurd rfl some'
  | cons piece rest ih =>
    cases rest with
    | nil => simp [joinWith]
    | cons next rest =>
      have others := ih (List.cons_ne_nil _ _)
      rw [List.map_cons, List.sum_cons, List.length_cons]
      show (piece ++ [separator] ++ joinWith [separator] (next :: rest)).length + 1 = _
      rw [List.length_append, List.length_append, List.length_singleton]
      omega

theorem le_of_plain {c : UInt8} (plain : Plain c) : 46 ≤ c.toNat := by
  have others : (str "nil>").all (fun c => decide (46 ≤ c.toNat)) = true := by decide
  rcases plain with decimal | letter | other
  · omega
  · omega
  · exact of_decide_eq_true (List.all_eq_true.mp others c other)

theorem le_of_mem_string {a : Addr} {c : UInt8} (member : c ∈ a.string) : 46 ≤ c.toNat := by
  have host : ∀ {ip : Ip} {c : UInt8}, c ∈ ip.string → 46 ≤ c.toNat := by
    intro ip c member
    obtain ⟨form, written⟩ := ipText_string ip
    rcases written.mem member with rfl | plain
    · cases form <;> decide
    · exact le_of_plain plain
  have port : ∀ {port : UInt16} {c : UInt8}, c ∈ numeral 10 port.toNat → 46 ≤ c.toNat :=
    fun member => le_of_plain (plain_of_mem_numeral (by decide) (by decide) member)
  have written := addrText_string a
  generalize a.string = text at written member
  cases written with
  | bare _ => exact host member
  | plain _ _ =>
    rcases List.mem_append.mp member with front | behind
    · exact host front
    · rcases List.mem_cons.mp behind with rfl | digits
      · decide
      · exact port digits
  | bracketed _ _ =>
    rcases List.mem_cons.mp member with rfl | inside
    · decide
    · rcases List.mem_append.mp inside with front | behind
      · exact host front
      · rcases List.mem_cons.mp behind with rfl | last
        · decide
        · rcases List.mem_cons.mp last with rfl | digits
          · decide
          · exact port digits

theorem length_ip_le (a : Addr) : a.ip.string.length ≤ a.string.length := by
  have written := addrText_string a
  generalize a.string = text at written ⊢
  cases written with
  | bare _ => exact le_rfl
  | plain _ _ =>
    rw [List.length_append]
    exact Nat.le_add_right _ _
  | bracketed _ _ =>
    rw [List.length_cons, List.length_append]
    omega

theorem string_of_to4 {ip v4 : Ip} (family : ip.to4 = some v4) : ip.string = dottedText v4 := by
  obtain ⟨form, written⟩ := ipText_string ip
  generalize ip.string = text at written ⊢
  cases written with
  | unset empty =>
    subst empty
    cases family
  | hex four sixteen =>
    rw [Ip.to4, if_neg four, if_neg fun mapped => sixteen mapped.1] at family
    cases family
  | dotted family' => rw [Option.some.inj (family.symm.trans family')]
  | colons _ family' =>
    rw [family] at family'
    cases family'

theorem seven_le_length_string {a : Addr} {v4 : Ip} (family : a.ip.to4 = some v4) :
    7 ≤ a.string.length := by
  refine le_trans ?_ (length_ip_le a)
  rw [string_of_to4 family]
  match v4, Ip.length_to4 family with
  | [b0, b1, b2, b3], _ =>
    have length : (joinWith [46] ([b0, b1, b2, b3].map fun byte =>
        numeral 10 byte.toNat)).length + 1 = _ :=
      length_joinWith 46 (List.cons_ne_nil _ _)
    have digits : ∀ byte : UInt8, 0 < (numeral 10 byte.toNat).length :=
      fun byte => List.length_pos_of_ne_nil (numeral_nonempty (by decide) _)
    have first := digits b0
    have second := digits b1
    have third := digits b2
    have fourth := digits b3
    simp only [List.map_cons, List.map_nil, List.sum_cons, List.sum_nil, List.length_cons,
      List.length_nil] at length
    show 7 ≤ (joinWith [46] ([b0, b1, b2, b3].map fun byte => numeral 10 byte.toNat)).length
    simp only [List.map_cons, List.map_nil]
    omega

theorem longestZeroRun_eq_none {groups : List Nat} (nonzero : ∀ group ∈ groups, group ≠ 0) :
    longestZeroRun groups = none := by
  have short : ∀ i, zeroRun (groups.drop i) = 0 := by
    intro i
    unfold zeroRun
    cases rest : groups.drop i with
    | nil => rfl
    | cons group others =>
      have inside : group ∈ groups :=
        List.mem_of_mem_drop (i := i) (by rw [rest]; exact List.mem_cons_self)
      rw [List.takeWhile_cons_of_neg (by simpa using nonzero group inside)]
      rfl
  simp [longestZeroRun, short]

theorem le_of_mem_ipGroups {ip : Ip} {least : Nat} (large : ∀ byte ∈ ip, least ≤ byte.toNat)
    {group : Nat} (member : group ∈ ipGroups ip) : least * 256 ≤ group := by
  induction ip using ipGroups.induct with
  | case1 high low rest ih =>
    rw [ipGroups] at member
    rcases List.mem_cons.mp member with rfl | other
    · have first := large high List.mem_cons_self
      omega
    · exact ih (fun byte inside => large byte (List.mem_cons_of_mem _
        (List.mem_cons_of_mem _ inside))) other
  | case2 ip short =>
    match ip, short with
    | [], _ => cases member
    | [_], _ => simp [ipGroups] at member
    | high :: low :: rest, short => exact absurd rfl (short high low rest)

theorem eighteen_lt_length_string {a : Addr} (size : a.ip.length = 16)
    (large : ∀ byte ∈ a.ip, 46 ≤ byte.toNat) : 18 < a.string.length := by
  refine lt_of_lt_of_le ?_ (length_ip_le a)
  have groups : ∀ group ∈ ipGroups a.ip, 46 * 256 ≤ group := fun _ => le_of_mem_ipGroups large
  have nonzero : ∀ group ∈ ipGroups a.ip, group ≠ 0 := by
    intro group member zero
    have bound := groups group member
    omega
  have family : a.ip.to4 = none := by
    rw [Ip.to4, if_neg (by omega), if_neg]
    rintro ⟨_, mapped⟩
    have zero : (0 : UInt8) ∈ a.ip := List.mem_of_mem_take (by rw [mapped]; exact List.mem_cons_self)
    exact absurd (large 0 zero) (by decide)
  have text : a.ip.string = joinWith [58] (groupTexts (ipGroups a.ip)) := by
    rw [Ip.string, if_neg (by omega), if_neg (by omega), family]
    dsimp only
    rw [ipv6String_eq, ipv6Pieces, longestZeroRun_eq_none nonzero]
  have digits : ∀ size ∈ (groupTexts (ipGroups a.ip)).map List.length, 4 ≤ size := by
    intro size member
    obtain ⟨piece, inside, rfl⟩ := List.mem_map.mp member
    obtain ⟨group, listed, rfl⟩ := List.mem_map.mp inside
    have bound := groups group listed
    by_contra short
    have less : group < 16 ^ 3 := (lt_pow_length_numeral (by decide) group).trans_le
      (Nat.pow_le_pow_right (by decide) (by omega))
    omega
  have count : (groupTexts (ipGroups a.ip)).length = 8 := by
    rw [groupTexts, List.length_map, length_ipGroups, size]
  have length := length_joinWith 58 (List.ne_nil_of_length_pos (by rw [count]; decide))
  have sum := List.card_nsmul_le_sum _ 4 digits
  rw [List.length_map, count, smul_eq_mul] at sum
  rw [text]
  omega

end GoBt.Krpc
