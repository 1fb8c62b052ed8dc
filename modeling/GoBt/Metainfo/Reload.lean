/-
**A .torrent file that is loaded, saved and loaded again.**

* `load_entries` — what `Load` accepts is a dictionary, and `InfoBytes` is the value of its last
  `info` entry, byte for byte.
* `Fine` — what holds of every file that was loaded: strings are shorter than 2^31 bytes and the date
  fits into 64 bits.
* `codes_toValue` — **a file that has this is decoded again from its encoding.**
* `load_write_load` — **loading and saving keeps the file**, and with it the info hash.
-/

import GoBt.Metainfo.MetaInfo

namespace GoBt.Metainfo

open GoBt.Bencode

/-! ### Host addresses -/

theorem noMethods_noText : NoText noMethods := nofun

theorem decodeBytes_held {b : GoString} {v : Value Empty}
    (decoded : decodeBytes noMethods b (.iface none) = (v, none)) :
    ∃ u, v = .iface (some u) ∧ Held u :=
  (decodeInto_iface _ (d := { r := b }) rfl (Prod.ext rfl decoded)).2

namespace HostAddr

/-- What is encoded of an address. -/
def token (a : HostAddr) : GoString :=
  108 :: (encodeString a.host ++ encodeInt a.port.toNat ++ [101])

theorem marshalBencode_eq (a : HostAddr) : a.marshalBencode = .ok a.token := by
  simp [marshalBencode, encodeBytes_slice, encodeValue, encodeElems, token]
  rfl

theorem port_lt (a : HostAddr) : a.port.toNat < 2 ^ 16 := a.port.toNat_lt

theorem unmarshalBencode_token (net : Net) (a z : HostAddr) (short : a.host.length < 2 ^ 31) :
    Item a.token ∧ z.unmarshalBencode net a.token = (a, none) := by
  have port := a.port_lt
  have host : Reads noMethods (.iface none) (encodeString a.host) _ := .ifaceString short
  obtain ⟨item, reads⟩ := Reads.ifacePair (item_encodeString short) (item_encodeInt a.port.toNat)
    host (.ifaceInt (by omega) (by omega))
  refine ⟨item, ?_⟩
  have wraps : ((a.port.toNat : Int) % 2 ^ 16).toNat = a.port.toNat := by omega
  have decoded := reads.decodeBytes
  rw [unmarshalBencode, token, decoded]
  dsimp only [Option.getD_some, decode, List.getElem?_cons_zero, List.getElem?_cons_succ]
  rw [wraps, UInt16.ofNat_toNat]

theorem short_of_decode {a z : HostAddr} {vs : List (Value Empty)} (held : ∀ v ∈ vs, Held v)
    (fine : z.decode (vs.map fun v => .iface (some v)) = (a, none)) : a.host.length < 2 ^ 31 := by
  unfold decode at fine
  split at fine
  · cases fine
  · rename_i host found
    have member := List.mem_of_getElem? found
    obtain ⟨v, inside, same⟩ := List.mem_map.mp member
    cases same
    have short : host.length < 2 ^ 31 := by
      cases held _ inside with
      | string short => exact short
    split at fine
    · cases fine
    · cases fine
      exact short
    · cases fine
  · cases fine

theorem short_of_parseHostAddr {net : Net} {a : HostAddr} {s : GoString} (short : s.length < 2 ^ 31)
    (fine : parseHostAddr net s = (a, none)) : a.host.length < 2 ^ 31 := by
  unfold parseHostAddr at fine
  split at fine
  · cases fine
  · rename_i host port found
    split at fine
    · cases fine
    · cases fine
      exact (net.host_le _ _ _ found).trans_lt short

theorem short_of_unmarshalBencode {net : Net} {a z : HostAddr} {b : GoString}
    (fine : z.unmarshalBencode net b = (a, none)) : a.host.length < 2 ^ 31 := by
  unfold unmarshalBencode at fine
  split at fine
  · cases fine
  · rename_i s decoded
    obtain ⟨_, same, held⟩ := decodeBytes_held decoded
    cases same
    cases held with
    | string short => exact short_of_parseHostAddr short fine
  · rename_i elem elems decoded
    obtain ⟨_, same, held⟩ := decodeBytes_held decoded
    cases same
    cases held with
    | @list elems each =>
      cases elems with
      | none =>
        have noElems : ∀ v ∈ ([] : List (Value Empty)), Held v := by simp
        exact short_of_decode noElems fine
      | some vs => exact short_of_decode each fine
  · cases fine
  · cases fine

end HostAddr

/-! ### Lists of strings -/

def ShortStrings (ss : Option (List GoString)) : Prop := ∀ s ∈ ss.getD [], s.length < 2 ^ 31

theorem codes_strings {χ : Type} {env : Env χ} {ss : Option (List GoString)}
    (short : ShortStrings ss) :
    Codes env (stringsValue none) (stringsValue ss) (stringsValue (orNil ss)) := by
  have each : ∀ s ∈ ss.getD [], Codes env (.string []) (.string s) (.string s) :=
    fun s member => .string (short s member)
  exact .sliceOrNil each

namespace URLList

theorem mapM_asString {χ : Type} (urls : List GoString) :
    (urls.map fun s => (Value.iface (some (.string s)) : Value χ)).mapM asString = some urls := by
  induction urls with
  | nil => rfl
  | cons s urls ih => simp [asString, ih]

theorem unmarshalBencode_marshalBencode {us : URLList} (short : ShortStrings us) (z : URLList) :
    ∃ token, us.marshalBencode = .ok token ∧ Item token ∧
      z.unmarshalBencode token = (some (us.getD []), none) := by
  have items : ∀ s ∈ us.getD [], Item (encodeString s) := fun s member =>
    item_encodeString (short s member)
  have each : ∀ s ∈ us.getD [],
      Reads noMethods (.iface none) (encodeString s) (.iface (some (.string s))) :=
    fun s member => .ifaceString (short s member)
  have decoded := (Reads.ifaceList items each).decodeBytes
  refine ⟨_, encodeValue_slice fun s _ => encodeValue_string noMethods {} s,
    .list (by simpa using items), ?_⟩
  · rw [← List.flatMap_def, unmarshalBencode, decoded, sliceOf]
    dsimp only
    rw [getD_ite_nil, mapM_asString]

theorem short_of_mapM {vs : List (Value Empty)} {urls : List GoString} (held : ∀ v ∈ vs, Held v)
    (all : (vs.map fun v => Value.iface (some v)).mapM asString = some urls) :
    ∀ s ∈ urls, s.length < 2 ^ 31 := by
  induction vs generalizing urls with
  | nil =>
    cases all
    simp
  | cons v vs ih =>
    obtain ⟨here, later⟩ := List.forall_mem_cons.mp held
    rw [List.map_cons, List.mapM_cons] at all
    cases here with
    | string short =>
      obtain ⟨first, found, rest⟩ := Option.bind_eq_some_iff.mp all
      obtain ⟨more, found', same⟩ := Option.bind_eq_some_iff.mp rest
      cases found
      cases same
      exact List.forall_mem_cons.mpr ⟨short, ih later found'⟩
    | int => cases all
    | list => cases all
    | map => cases all

theorem short_of_unmarshalBencode {us z : URLList} {b : GoString}
    (fine : z.unmarshalBencode b = (us, none)) : ShortStrings us := by
  unfold unmarshalBencode at fine
  split at fine
  · cases fine
  · rename_i s decoded
    obtain ⟨_, same, held⟩ := decodeBytes_held decoded
    cases same
    cases fine
    cases held with
    | string short => exact List.forall_mem_singleton.mpr short
  · rename_i elem elems decoded
    obtain ⟨_, same, held⟩ := decodeBytes_held decoded
    cases same
    split at fine
    · cases fine
    · rename_i urls all
      cases fine
      cases held with
      | @list elems each =>
        cases elems with
        | none =>
          cases all
          exact fun _ member => absurd member List.not_mem_nil
        | some vs => exact short_of_mapM each all
  · cases fine

end URLList

/-! ### What is loaded -/

namespace MetaInfo

variable {net : Net}

theorem fileEnv_noText (net : Net) : NoText (fileEnv net) := fun type => by cases type <;> rfl

/-- The value of the last `info` entry. -/
def lastInfo (entries : List Entry) : Option GoString :=
  (entries.reverse.find? fun e => e.key == str "info").map Entry.value

theorem lastInfo_concat (entries : List Entry) (e : Entry) :
    lastInfo (entries ++ [e]) = if e.key = str "info" then some e.value else lastInfo entries := by
  rw [lastInfo, List.reverse_append, List.reverse_singleton, List.singleton_append]
  split
  · rename_i here
    rw [List.find?_cons_of_pos (by simpa using here)]
    rfl
  · rename_i other
    rw [List.find?_cons_of_neg (by simpa using other)]
    rfl

/-- A host address whose host is shorter than 2^31 bytes. -/
def ShortHost (v : Value Named) : Prop := ∃ a : HostAddr, v = a.toValue ∧ a.host.length < 2 ^ 31

/-- The fields of a file, with what holds of them while it is loaded. -/
def specs : List (FieldSpec Named) :=
  [(field "InfoBytes" "info", fun entries v => v = .raw (lastInfo entries)),
    (field "Announce" "announce,omitempty", fun _ => ShortString),
    (field "AnnounceList" "announce-list,omitempty", fun _ =>
      SliceOf (stringsValue none) (SliceOf (.string []) ShortString)),
    (field "Nodes" "nodes,omitempty", fun _ =>
      SliceOf (nodeValue {}) (NamedOf .hostAddr ShortHost)),
    (field "URLList" "url-list,omitempty", fun _ =>
      NamedOf .urlList (SliceOf (.string []) ShortString)),
    (field "CreationDate" "creation date,omitempty", fun _ => Int64Value),
    (field "Comment" "comment,omitempty", fun _ => ShortString),
    (field "CreatedBy" "created by,omitempty", fun _ => ShortString),
    (field "Encoding" "encoding,omitempty", fun _ => ShortString)]

theorem field_tagged (net : Net) : ∀ spec ∈ specs, spec.1.Tagged (fileEnv net) := by
  have ascii : ∀ f ∈ specs.map Prod.fst, f.asciiTagged = true := by decide +kernel
  exact fun spec member => .of_ascii _ (ascii _ (List.mem_map_of_mem member))

theorem keys_distinct : (specs.map fun spec => spec.1.key).Nodup := by decide +kernel

theorem keeps_strings (net : Net) : Keeps (fileEnv net) (SliceOf (.string []) ShortString) :=
  keeps_slice (fileEnv_noText net) (keeps_string _) ⟨[], rfl, by decide⟩

theorem typed_list {α : Type} {P : Value Named → Prop} {value : α → Value Named} {Q : α → Prop}
    (typed : ∀ x, P x → ∃ a, x = value a ∧ Q a) (xs : List (Value Named)) (all : ∀ x ∈ xs, P x) :
    ∃ as : List α, xs = as.map value ∧ ∀ a ∈ as, Q a := by
  induction xs with
  | nil => exact ⟨[], rfl, by simp⟩
  | cons x xs ih =>
    obtain ⟨here, later⟩ := List.forall_mem_cons.mp all
    obtain ⟨a, rfl, fine⟩ := typed x here
    obtain ⟨as, rfl, each⟩ := ih later
    exact ⟨a :: as, rfl, List.forall_mem_cons.mpr ⟨fine, each⟩⟩

theorem typed_slice {α : Type} {P : Value Named → Prop} {value : α → Value Named} {Q : α → Prop}
    {z v : Value Named} (typed : ∀ x, P x → ∃ a, x = value a ∧ Q a) (slice : SliceOf z P v) :
    ∃ as : Option (List α), v = .slice z (as.map fun as => as.map value) ∧
      ∀ a ∈ as.getD [], Q a := by
  obtain ⟨elems, rfl, all⟩ := slice
  cases elems with
  | none => exact ⟨none, rfl, by simp⟩
  | some xs =>
    obtain ⟨as, rfl, each⟩ := typed_list typed xs all
    exact ⟨some as, rfl, each⟩

theorem typed_strings {v : Value Named} (slice : SliceOf (.string []) ShortString v) :
    ∃ ss, v = stringsValue ss ∧ ShortStrings ss :=
  typed_slice (fun _ fine => fine) slice

theorem sliceOf_strings {ss : Option (List GoString)} (short : ShortStrings ss) :
    SliceOf (.string []) ShortString (stringsValue ss : Value Named) := by
  refine ⟨_, rfl, fun x member => ?_⟩
  cases ss with
  | none => exact absurd member List.not_mem_nil
  | some ss =>
    obtain ⟨s, inside, rfl⟩ := List.mem_map.mp member
    exact ⟨s, rfl, short s inside⟩

theorem keeps_urlList (net : Net) :
    Keeps (fileEnv net) (NamedOf .urlList (SliceOf (.string []) ShortString)) := by
  refine keeps_named rfl ?_
  rintro x b w _ _ fine
  obtain ⟨rfl, fault⟩ := Prod.mk.inj fine
  exact sliceOf_strings (URLList.short_of_unmarshalBencode (Prod.ext rfl fault))

theorem keeps_hostAddr (net : Net) : Keeps (fileEnv net) (NamedOf .hostAddr ShortHost) := by
  refine keeps_named rfl ?_
  rintro x b w _ _ fine
  obtain ⟨rfl, fault⟩ := Prod.mk.inj fine
  exact ⟨_, rfl, HostAddr.short_of_unmarshalBencode (Prod.ext rfl fault)⟩

theorem info_key : (field "InfoBytes" "info").key = str "info" := by decide +kernel

theorem info_hit (net : Net) (fuel : Nat) (before : List Entry) (e : Entry) (d d' : Decoder)
    (x x' : Value Named) (key : (field "InfoBytes" "info").key = e.key)
    (start : x = .raw (lastInfo before)) (typed : d.raw = false)
    (decoded : decodeInto (fileEnv net) fuel d true x = (d', x', none)) (read : Read d e.value d') :
    x' = .raw (lastInfo (before ++ [e])) := by
  subst start
  obtain ⟨token, _, read', rfl⟩ := decodeInto_captures typed decoded
  have same : token = e.value := List.append_cancel_right (read'.input.symm.trans read.input)
  rw [lastInfo_concat, if_pos (key.symm.trans info_key), same]

theorem specs_hit (net : Net) : ∀ spec ∈ specs, ∀ fuel before e d d' x x', spec.1.key = e.key →
    spec.2 before x → d.raw = false → decodeInto (fileEnv net) fuel d true x = (d', x', none) →
    Item e.value → Read d e.value d' → spec.2 (before ++ [e]) x' := by
  have noText := fileEnv_noText net
  -- Only `InfoBytes` depends on the entries; what holds of the others is kept by decoding.
  have kept : ∀ {P : Value Named → Prop} (f : Field), Keeps (fileEnv net) P →
      ∀ (fuel : Nat) (before : List Entry) (e : Entry) (d d' : Decoder) (x x' : Value Named),
      f.key = e.key → P x → d.raw = false →
      decodeInto (fileEnv net) fuel d true x = (d', x', none) → Item e.value →
      Read d e.value d' → P x' :=
    fun _ keeps fuel _ _ d d' x x' _ start typed decoded _ _ => keeps fuel d d' x x' start typed decoded
  have string := keeps_string (fileEnv net)
  have tiers := keeps_slice (z := stringsValue none) noText (keeps_strings net)
    ⟨none, rfl, fun _ member => absurd member List.not_mem_nil⟩
  have nodes := keeps_slice (z := nodeValue {}) noText (keeps_hostAddr net)
    ⟨_, rfl, {}, rfl, by decide⟩
  simp only [specs, List.forall_mem_cons]
  exact ⟨fun fuel before e d d' x x' key start typed decoded _ read =>
      info_hit net fuel before e d d' x x' key start typed decoded read,
    kept _ string, kept _ tiers, kept _ nodes, kept _ (keeps_urlList net), kept _ (keeps_int _),
    kept _ string, kept _ string, kept _ string, by simp⟩

theorem specs_miss : ∀ spec ∈ specs, ∀ before e x, spec.1.key ≠ e.key → spec.2 before x →
    spec.2 (before ++ [e]) x := by
  simp only [specs, List.forall_mem_cons]
  refine ⟨fun before e x other start => ?_, fun _ _ _ _ kept => kept, fun _ _ _ _ kept => kept,
    fun _ _ _ _ kept => kept, fun _ _ _ _ kept => kept, fun _ _ _ _ kept => kept,
    fun _ _ _ _ kept => kept, fun _ _ _ _ kept => kept, fun _ _ _ _ kept => kept, by simp⟩
  rw [lastInfo_concat, if_neg fun same => other (info_key.trans same.symm)]
  exact start

/-- What holds of every file that was loaded. -/
structure Fine (mi : MetaInfo) : Prop where
  announce : mi.announce.length < 2 ^ 31
  announceList : ∀ tier ∈ mi.announceList.getD [], ShortStrings tier
  nodes : ∀ a ∈ mi.nodes.getD [], a.host.length < 2 ^ 31
  urlList : ShortStrings mi.urlList
  creationDate : -2 ^ 63 ≤ mi.creationDate ∧ mi.creationDate < 2 ^ 63
  comment : mi.comment.length < 2 ^ 31
  createdBy : mi.createdBy.length < 2 ^ 31
  encoding : mi.encoding.length < 2 ^ 31

theorem specs_zero : StructOf specs [] ({} : MetaInfo).toValue := by
  have string : ShortString (.string [] : Value Named) := ⟨[], rfl, by decide⟩
  have noElems : ∀ {P : Value Named → Prop}, ∀ x ∈ (none : Option (List (Value Named))).getD [], P x :=
    fun x member => absurd member List.not_mem_nil
  refine ⟨_, rfl, ?_⟩
  refine .cons ⟨rfl, rfl⟩ <| .cons ⟨rfl, string⟩ <| .cons ⟨rfl, none, rfl, noElems⟩ <|
    .cons ⟨rfl, none, rfl, noElems⟩ <| .cons ⟨rfl, _, rfl, none, rfl, noElems⟩ <|
    .cons ⟨rfl, 0, rfl, by decide, by decide⟩ <| .cons ⟨rfl, string⟩ <| .cons ⟨rfl, string⟩ <|
    .cons ⟨rfl, string⟩ .nil

theorem of_specs {entries : List Entry} {w : Value Named} (all : StructOf specs entries w) :
    ∃ mi : MetaInfo, w = mi.toValue ∧ mi.Fine ∧ mi.infoBytes = lastInfo entries := by
  obtain ⟨fields, rfl, all⟩ := all
  obtain _ | @⟨_, ⟨_, _⟩, _, _, ⟨rfl, rfl⟩, all⟩ := all
  obtain _ | @⟨_, ⟨_, _⟩, _, _, ⟨rfl, announce, rfl, shortAnnounce⟩, all⟩ := all
  obtain _ | @⟨_, ⟨_, _⟩, _, _, ⟨rfl, tiersAre⟩, all⟩ := all
  obtain _ | @⟨_, ⟨_, _⟩, _, _, ⟨rfl, nodesAre⟩, all⟩ := all
  obtain _ | @⟨_, ⟨_, _⟩, _, _, ⟨rfl, _, rfl, urlsAre⟩, all⟩ := all
  obtain _ | @⟨_, ⟨_, _⟩, _, _, ⟨rfl, date, rfl, range⟩, all⟩ := all
  obtain _ | @⟨_, ⟨_, _⟩, _, _, ⟨rfl, comment, rfl, shortComment⟩, all⟩ := all
  obtain _ | @⟨_, ⟨_, _⟩, _, _, ⟨rfl, createdBy, rfl, shortCreatedBy⟩, all⟩ := all
  obtain _ | @⟨_, ⟨_, _⟩, _, _, ⟨rfl, encoding, rfl, shortEncoding⟩, all⟩ := all
  obtain rfl := List.forall₂_nil_left_iff.mp all
  have node : ∀ x, NamedOf Named.hostAddr ShortHost x →
      ∃ a, x = nodeValue a ∧ a.host.length < 2 ^ 31 := by
    rintro _ ⟨_, rfl, a, rfl, fine⟩
    exact ⟨a, rfl, fine⟩
  obtain ⟨tiers, sameTiers, shortTiers⟩ := typed_slice (fun _ => typed_strings) tiersAre
  obtain ⟨nodes, sameNodes, shortNodes⟩ := typed_slice node nodesAre
  obtain ⟨urls, rfl, shortUrls⟩ := typed_strings urlsAre
  dsimp only at sameTiers sameNodes
  rw [sameTiers, sameNodes]
  exact ⟨⟨lastInfo entries, announce, tiers, nodes, urls, date, comment, createdBy, encoding⟩, rfl,
    ⟨shortAnnounce, shortTiers, shortNodes, shortUrls, range, shortComment, shortCreatedBy,
      shortEncoding⟩, rfl⟩

/-- **What `Load` accepts is a dictionary**, and its entries give the fields. -/
theorem load_entries {b : GoString} {mi : MetaInfo} (loaded : load net b = .ok mi) :
    ∃ entries rest, WellFormed entries ∧ b = 100 :: (entries.flatMap Entry.bytes ++ [101]) ++ rest ∧
      mi.Fine ∧ mi.infoBytes = lastInfo entries := by
  have noText := fileEnv_noText net
  unfold load at loaded
  split at loaded
  · rename_i w decoded
    obtain ⟨entries, fine, read, all⟩ := decodeInto_struct noText (field_tagged net) keys_distinct
      (specs_hit net) specs_miss specs_zero (d := { r := b }) rfl (Prod.ext rfl decoded)
    obtain ⟨mi', rfl, fine', info⟩ := of_specs all
    cases loaded
    rw [ofValue_toValue]
    exact ⟨entries, _, fine, read.input, fine', info⟩
  · cases loaded

/-! ### Saving and loading again -/

/-- The file as it is loaded again: slices without elements are nil. -/
def withNil (mi : MetaInfo) : MetaInfo :=
  { mi with
    announceList := (orNil mi.announceList).map fun tiers => tiers.map orNil
    nodes := orNil mi.nodes
    urlList := orNil mi.urlList }

/-- The fields of a file: before, as they are encoded, and as they are decoded again. -/
def parts (mi : MetaInfo) : List (FieldPart Named) :=
  [⟨field "InfoBytes" "info", .raw none, .raw mi.infoBytes, .raw mi.infoBytes⟩,
    ⟨field "Announce" "announce,omitempty", .string [], .string mi.announce, .string mi.announce⟩,
    ⟨field "AnnounceList" "announce-list,omitempty", .slice (stringsValue none) none,
      .slice (stringsValue none) (mi.announceList.map fun tiers => tiers.map stringsValue),
      .slice (stringsValue none)
        ((orNil mi.announceList).map fun tiers => tiers.map fun tier => stringsValue (orNil tier))⟩,
    ⟨field "Nodes" "nodes,omitempty", .slice (nodeValue {}) none,
      .slice (nodeValue {}) (mi.nodes.map fun nodes => nodes.map nodeValue),
      .slice (nodeValue {}) ((orNil mi.nodes).map fun nodes => nodes.map nodeValue)⟩,
    ⟨field "URLList" "url-list,omitempty", .named .urlList (stringsValue none),
      .named .urlList (stringsValue mi.urlList), .named .urlList (stringsValue (orNil mi.urlList))⟩,
    ⟨field "CreationDate" "creation date,omitempty", .int 64 0, .int 64 mi.creationDate,
      .int 64 mi.creationDate⟩,
    ⟨field "Comment" "comment,omitempty", .string [], .string mi.comment, .string mi.comment⟩,
    ⟨field "CreatedBy" "created by,omitempty", .string [], .string mi.createdBy,
      .string mi.createdBy⟩,
    ⟨field "Encoding" "encoding,omitempty", .string [], .string mi.encoding, .string mi.encoding⟩]

theorem layout (net : Net) (mi : MetaInfo) : FieldPart.Layout (fileEnv net) mi.parts :=
  .of_sample _ (parts {}) rfl (by decide +kernel)

theorem codes_node (net : Net) {a : HostAddr} (short : a.host.length < 2 ^ 31) :
    Codes (fileEnv net) (nodeValue {}) (nodeValue a) (nodeValue a) := by
  obtain ⟨item, decoded⟩ := HostAddr.unmarshalBencode_token net a {} short
  have marshal : marshalOf (fileEnv net) .hostAddr a.toValue = some (.ok a.token) := by
    rw [← HostAddr.marshalBencode_eq]
    exact congrArg (fun a : HostAddr => some a.marshalBencode) (HostAddr.ofValue_toValue a)
  refine .named marshal item rfl ?_
  rw [HostAddr.ofValue_toValue, decoded]

theorem codes_urlList (net : Net) {us : URLList} (short : ShortStrings us) (some' : us.getD [] ≠ []) :
    Codes (fileEnv net) (.named .urlList (stringsValue none)) (.named .urlList (stringsValue us))
      (.named .urlList (stringsValue (orNil us))) := by
  obtain ⟨token, encoded, item, decoded⟩ := URLList.unmarshalBencode_marshalBencode short none
  have marshal : marshalOf (fileEnv net) .urlList (stringsValue us) = some (.ok token) := by
    rw [← encoded]
    exact congrArg (fun us : URLList => some us.marshalBencode) (stringsOf_stringsValue us)
  refine .named marshal item rfl ?_
  rw [stringsOf_stringsValue, decoded, orNil, if_neg some']

theorem parts_fine (net : Net) {mi : MetaInfo} (fine : mi.Fine) {token : GoString}
    (info : mi.infoBytes = some token) (item : Item token) :
    ∀ p ∈ mi.parts, p.Fine (fileEnv net) := by
  have tagged := (mi.layout net).tagged
  simp only [parts, List.forall_mem_cons] at tagged ⊢
  obtain ⟨tag₀, tag₁, tag₂, tag₃, tag₄, tag₅, tag₆, tag₇, tag₈, _⟩ := tagged
  refine ⟨?_, .string tag₁ fine.announce,
    .slice tag₂ fun tier member => codes_strings (fine.announceList tier member),
    .slice tag₃ fun a member => codes_node net (fine.nodes a member), ?_,
    .int tag₅ fine.creationDate.1 fine.creationDate.2, .string tag₆ fine.comment,
    .string tag₇ fine.createdBy, .string tag₈ fine.encoding, by simp⟩
  · -- `info` is never left out
    have noOption : optionsContain (parseTag (field "InfoBytes" "info").tag).2 "omitempty" = false := by
      decide +kernel
    refine .of_tagged tag₀ rfl (fun option => absurd (noOption.symm.trans option) (by decide)) ?_
    intro _
    rw [info]
    exact .raw _ item none
  · have option : optionsContain (parseTag (field "URLList" "url-list,omitempty").tag).2 "omitempty" =
        true := by
      decide +kernel
    have isEmpty : (stringsValue mi.urlList : Value Named).isEmptyValue = true ↔
        mi.urlList.getD [] = [] := isEmptyValue_slice
    refine .of_tagged tag₄ rfl (fun _ empty => ?_) fun some' => ?_
    · rw [orNil, if_pos (isEmpty.mp empty)]
    · refine codes_urlList net fine.urlList fun empty => ?_
      exact absurd ((isEmpty.mpr empty).symm.trans (some' option)) (by decide)

/-- **A file that was loaded is decoded again from its encoding.** -/
theorem codes_toValue (net : Net) {mi : MetaInfo} (fine : mi.Fine) {token : GoString}
    (info : mi.infoBytes = some token) (item : Item token) :
    Codes (fileEnv net) ({} : MetaInfo).toValue mi.toValue mi.withNil.toValue := by
  have layout := mi.layout net
  have codes := Codes.struct layout.keyed layout.distinct layout.short (parts_fine net fine info item)
  have result : mi.withNil.toValue = .struct (mi.parts.map fun p => (p.field, p.result)) := by
    simp [toValue, withNil, parts, Function.comp_def]
  rw [result]
  exact codes

/-- The entries of a dictionary are those that are read in it. -/
def Dictionary (b : GoString) (entries : List Entry) : Prop :=
  WellFormed entries ∧ ∃ rest, b = 100 :: (entries.flatMap Entry.bytes ++ [101]) ++ rest

theorem Dictionary.unique {b : GoString} {entries entries' : List Entry}
    (dict : Dictionary b entries) (dict' : Dictionary b entries') : entries = entries' := by
  obtain ⟨fine, rest, rfl⟩ := dict
  obtain ⟨fine', rest', same⟩ := dict'
  exact (entries_unique fine fine' (List.cons.inj same).2).1

theorem item_of_lastInfo {entries : List Entry} (fine : WellFormed entries) {token : GoString}
    (last : lastInfo entries = some token) : Item token := by
  obtain ⟨e, found, rfl⟩ := Option.map_eq_some_iff.mp last
  exact fine.values e (List.mem_reverse.mp (List.mem_of_find?_eq_some found))

/-- **Loading and saving keeps the file.** What `Load` accepts is a dictionary, with one list of
entries. If one of them has the key `info`, `InfoBytes` is the value of the last such entry as it
stands in the input; the file can be written, and what was written is loaded as the same file again,
up to slices without elements, so that the info hash stays as it was. -/
theorem load_write_load (net : Net) (sha1 : List UInt8 → Hash) {b : GoString} {mi : MetaInfo}
    (loaded : load net b = .ok mi) :
    ∃ entries, Dictionary b entries ∧ (∀ entries', Dictionary b entries' → entries' = entries) ∧
      ∀ token, lastInfo entries = some token →
        mi.infoBytes = some token ∧
        ∃ saved, write net mi = .ok saved ∧ load net saved = .ok mi.withNil ∧
          mi.withNil.infoHash sha1 = mi.infoHash sha1 := by
  obtain ⟨entries, rest, wellFormed, input, fine, info⟩ := load_entries loaded
  have dict : Dictionary b entries := ⟨wellFormed, rest, input⟩
  refine ⟨entries, dict, fun entries' dict' => dict'.unique dict, fun token last => ?_⟩
  have info' := info.trans last
  obtain ⟨saved, encoded, decoded⟩ :=
    (codes_toValue net fine info' (item_of_lastInfo wellFormed last)).decodeBytes rfl
  refine ⟨info', saved, encoded, ?_, rfl⟩
  rw [load, decoded]
  exact congrArg Except.ok (ofValue_toValue _)

def noPorts : Net where
  splitHostPort _ := .error []
  host_le _ _ _ found := by cases found

/-- An `info` value with unsorted keys and zeros in front of a number, and a node. -/
theorem load_write_load_unsorted :
    let b := str "d4:infod1:bi007e1:a0:e5:nodesll1:hi80eee8:url-list1:ue"
    let mi : MetaInfo :=
      { infoBytes := some (str "d1:bi007e1:a0:e"), nodes := some [⟨str "h", 80⟩]
        urlList := some [str "u"] }
    load noPorts b = .ok mi ∧
    ∃ entries, Dictionary b entries ∧ (∀ entries', Dictionary b entries' → entries' = entries) ∧
      ∀ token, lastInfo entries = some token →
        mi.infoBytes = some token ∧
        ∃ saved, write noPorts mi = .ok saved ∧ load noPorts saved = .ok mi.withNil ∧
          mi.withNil.infoHash (fun _ => zeroHash) = mi.infoHash fun _ => zeroHash := by
  intro b mi
  have loaded : load noPorts b = .ok mi := by decide +kernel
  exact ⟨loaded, load_write_load noPorts (fun _ => zeroHash) loaded⟩

end MetaInfo

end GoBt.Metainfo
