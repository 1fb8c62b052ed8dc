/-
**The values of a `get_peers` reply.**

The comment at `ResponseResult.Values` says that a value is in general the compact form of a peer's
address, to be read with `Addr.UnmarshalBinary`. `GetPeers` of the token-peer manager returns
`Addr.String()` of each peer instead, as the peer manager of the package's example does.

* `collect_eq`, `valuesFor_eq` — the values are the texts of the first `K` stored peers of each
  family that is asked for.
* `decodes_chain_ends` — texts that are compact forms of one another make no chain longer than two.
* **`getPeers_values_are_texts`** — the values of a reply are the texts of different stored peers,
  at most `K` of each family; unless more than `K` of a family are stored, they are compact forms
  only if there are none.
-/

import GoBt.Dht.Announce
import GoBt.Dht.FindNode
import GoBt.Krpc.AddrText
import GoBt.Krpc.Codec

namespace GoBt.Dht

open GoBt.Lib GoBt.Metainfo GoBt.Krpc

/-! ### Texts read as compact forms -/

/-- The value is the compact form of the address of the peer. -/
def DecodesTo (value : GoString) (p : Peer) : Prop :=
  ∃ addr, Addr.unmarshalBinary value = .ok addr ∧ addr.equal p.addr = true

theorem length_of_unmarshalBinary {data : List UInt8} {addr : Addr}
    (decoded : Addr.unmarshalBinary data = .ok addr) :
    data.length = addr.ip.length + 2 ∧ (addr.ip.length = 4 ∨ addr.ip.length = 16) ∧
      addr.ip ⊆ data := by
  unfold Addr.unmarshalBinary at decoded
  split at decoded
  · rename_i fits
    obtain rfl := Except.ok.inj decoded
    refine ⟨?_, ?_, fun byte => List.mem_of_mem_take⟩
    · rw [List.length_take]
      omega
    · rw [List.length_take]
      omega
  · cases decoded

/-- The IP has the size of IPv6, and its bytes are those of a text. -/
def Lettered (ip : Ip) : Prop := ip.length = 16 ∧ ∀ byte ∈ ip, 46 ≤ byte.toNat

/-- What a text can be the compact form of: an IPv6 address of letters, or an IPv4 address if it has
six bytes. -/
theorem decoded_text {a : Addr} {p : Peer} (decodes : DecodesTo a.string p) :
    Lettered p.addr.ip ∨ (p.addr.ip.to4.isSome = true ∧ a.string.length = 6) := by
  obtain ⟨form, decoded, same⟩ := decodes
  obtain ⟨length, family, inside⟩ := length_of_unmarshalBinary decoded
  have letters : ∀ byte ∈ form.ip, 46 ≤ byte.toNat := fun byte member =>
    le_of_mem_string (inside member)
  have sameIp : form.ip.equal p.addr.ip = true := (Bool.and_eq_true_iff.mp same).2
  unfold Ip.equal at sameIp
  rcases family with four | sixteen
  · refine Or.inr ⟨?_, by rw [length, four]⟩
    unfold Ip.to4
    split at sameIp
    · rename_i sizes
      rw [if_pos (sizes.symm.trans four)]
      rfl
    · split at sameIp
      · rename_i _ sizes
        have mapped := beq_iff_eq.mp (Bool.and_eq_true_iff.mp sameIp).1
        rw [if_neg (by omega), if_pos ⟨sizes.2, mapped⟩]
        rfl
      · rw [if_neg (by omega)] at sameIp
        cases sameIp
  · refine Or.inl ?_
    split at sameIp
    · rw [← beq_iff_eq.mp sameIp]
      exact ⟨sixteen, letters⟩
    · rw [if_neg (by omega)] at sameIp
      split at sameIp
      · -- the first byte of a mapped address is zero, and no character is
        have mapped := beq_iff_eq.mp (Bool.and_eq_true_iff.mp sameIp).1
        have zero : (0 : UInt8) ∈ form.ip :=
          List.mem_of_mem_take (by rw [mapped]; exact List.mem_cons_self)
        exact absurd (letters 0 zero) (by decide)
      · cases sameIp

theorem not_decodesTo_of_lettered {a : Addr} (lettered : Lettered a.ip) (p : Peer) :
    ¬ DecodesTo a.string p := by
  rintro ⟨form, decoded, _⟩
  have length := (length_of_unmarshalBinary decoded).1
  have family := (length_of_unmarshalBinary decoded).2.1
  have long := eighteen_lt_length_string lettered.1 lettered.2
  omega

theorem length_ne_six {a : Addr} (family : a.ip.to4.isSome = true) : a.string.length ≠ 6 := by
  obtain ⟨v4, form⟩ := Option.isSome_iff_exists.mp family
  have length := seven_le_length_string form
  omega

theorem decodes_chain_ends {p q r : Peer} {a : Addr} (first : DecodesTo a.string p)
    (second : DecodesTo p.addr.string q) (third : DecodesTo q.addr.string r) : False := by
  rcases decoded_text first with lettered | ⟨family, _⟩
  · exact not_decodesTo_of_lettered lettered q second
  · rcases decoded_text second with lettered | ⟨_, six⟩
    · exact not_decodesTo_of_lettered lettered r third
    · exact length_ne_six family six

/-! ### The values -/

def ofFamily (ipv6 : Bool) (peers : List Peer) : List Peer :=
  peers.filter fun p => isIPv6 p.addr.ip == ipv6

theorem collect_eq (ipv6 : Bool) (maxnum : Int) (peers : List Peer) :
    TokenPeerManager.collect ipv6 maxnum peers =
      ((ofFamily ipv6 peers).take maxnum.toNat).map fun p => p.addr.string := by
  induction peers generalizing maxnum with
  | nil => simp [TokenPeerManager.collect, ofFamily]
  | cons p rest ih =>
    unfold TokenPeerManager.collect
    split
    · rw [show maxnum.toNat = 0 by omega]
      rfl
    · rename_i positive
      split
      · rename_i family
        have front : ofFamily ipv6 (p :: rest) = p :: ofFamily ipv6 rest :=
          List.filter_cons_of_pos (by simpa using family)
        rw [ih, front, show maxnum.toNat = (maxnum - 1).toNat + 1 by omega]
        rfl
      · rename_i family
        have front : ofFamily ipv6 (p :: rest) = ofFamily ipv6 rest :=
          List.filter_cons_of_neg (by simpa using family)
        rw [ih, front]

namespace Server

def peersAt (s : Server) (infohash : Hash) : List Peer :=
  (s.tokenPeerManager.peers.lookup infohash).elim [] GoMap.values

theorem mem_peersAt_iff {s : Server} {infohash : Hash} {p : Peer} :
    p ∈ s.peersAt infohash ↔ ∃ key, s.tokenPeerManager.entry infohash key = some p := by
  unfold peersAt TokenPeerManager.entry
  cases s.tokenPeerManager.peers.lookup infohash with
  | none => simp
  | some peers => exact GoMap.mem_values_iff

theorem nodup_texts_peersAt (config : Config) (setup : Setup) (events : List Event)
    (infohash : Hash) :
    (((run step (newServer config setup) events).peersAt infohash).map
      fun p => p.addr.string).Nodup := by
  have manager := run_tokenPeerManager config setup events
  generalize run step (newServer config setup) events = s at manager
  unfold peersAt
  cases found : s.tokenPeerManager.peers.lookup infohash with
  | none => exact List.nodup_nil
  | some peers =>
    have text : ∀ key p, peers.lookup key = some p → p.addr.string = key := by
      intro key p filed
      have entry : s.tokenPeerManager.entry infohash key = some p := by
        rw [TokenPeerManager.entry, found]
        exact filed
      rw [manager] at entry
      exact TokenPeerManager.key_of_entry_run entry
    exact GoMap.nodup_map_values fun key key' p p' filed filed' same =>
      (text key p filed).symm.trans (same.trans (text key' p' filed'))

def Answers (raddr : Addr) (a : QueryArg) : Bool → Prop
  | false => Answers4 raddr a
  | true => Answers6 raddr a

instance (raddr : Addr) (a : QueryArg) (ipv6 : Bool) : Decidable (Answers raddr a ipv6) := by
  cases ipv6
  · unfold Answers Answers4
    infer_instance
  · unfold Answers Answers6
    infer_instance

/-- The stored peers of a family that `GetPeers` picks. -/
def picked (env : Env) (s : Server) (raddr : Addr) (a : QueryArg) (ipv6 : Bool) : List Peer :=
  if Answers raddr a ipv6 then
    (ofFamily ipv6 ((env.peerOrder ipv6).visit (s.peersAt a.infoHash))).take s.conf.k.toNat
  else []

def selected (env : Env) (s : Server) (raddr : Addr) (a : QueryArg) : List Peer :=
  picked env s raddr a false ++ picked env s raddr a true

theorem storedPeers_eq {env : Env} {s : Server} (plain : s.conf.customPeers = false)
    (infohash : Hash) (ipv6 : Bool) :
    storedPeers env s infohash ipv6 =
      ((ofFamily ipv6 ((env.peerOrder ipv6).visit (s.peersAt infohash))).take
        s.conf.k.toNat).map fun p => p.addr.string := by
  unfold storedPeers TokenPeerManager.getPeers peersAt
  rw [plain, if_neg Bool.false_ne_true]
  cases s.tokenPeerManager.peers.lookup infohash with
  | none =>
    rw [Option.elim_none, ((env.peerOrder ipv6).perm []).eq_nil]
    simp [ofFamily]
  | some peers => exact collect_eq _ _ _

theorem valuesFor_families (env : Env) (s : Server) (raddr : Addr) (a : QueryArg) :
    valuesFor env s raddr a =
      (if Answers raddr a false then storedPeers env s a.infoHash false else []) ++
        (if Answers raddr a true then storedPeers env s a.infoHash true else []) := by
  unfold valuesFor
  cases four : a.containsWant wantNodes <;> cases six : a.containsWant wantNodes6
  · cases family : isIPv6 raddr.ip <;> simp [Answers, Answers4, Answers6, four, six, family]
  · simp [Answers, Answers4, Answers6, four, six]
  · simp [Answers, Answers4, Answers6, four, six]
  · simp only [Answers, Answers4, Answers6, four, six, Bool.not_true, Bool.and_self, true_or,
      if_true, Bool.false_eq_true, if_false]
    split
    · rename_i empty
      rw [List.length_eq_zero_iff.mp empty, List.nil_append]
    · rfl

theorem valuesFor_eq {env : Env} {s : Server} (plain : s.conf.customPeers = false) (raddr : Addr)
    (a : QueryArg) :
    valuesFor env s raddr a = (selected env s raddr a).map fun p => p.addr.string := by
  rw [valuesFor_families, selected, List.map_append]
  unfold picked
  simp only [storedPeers_eq plain, apply_ite (List.map fun p : Peer => p.addr.string), List.map_nil]

def Requested (raddr : Addr) (a : QueryArg) (p : Peer) : Prop := Answers raddr a (isIPv6 p.addr.ip)

section Selection

variable {env : Env} {s : Server} {raddr : Addr} {a : QueryArg}

theorem mem_ofFamily_visit {p : Peer} {ipv6 : Bool} :
    p ∈ ofFamily ipv6 ((env.peerOrder ipv6).visit (s.peersAt a.infoHash)) ↔
      p ∈ s.peersAt a.infoHash ∧ isIPv6 p.addr.ip = ipv6 := by
  rw [ofFamily, List.mem_filter, ((env.peerOrder ipv6).perm _).mem_iff, beq_iff_eq]

theorem mem_selected {p : Peer} (chosen : p ∈ selected env s raddr a) :
    p ∈ s.peersAt a.infoHash ∧ Requested raddr a p := by
  have family : ∀ ipv6, p ∈ picked env s raddr a ipv6 →
      p ∈ s.peersAt a.infoHash ∧ Requested raddr a p := by
    intro ipv6 member
    unfold picked at member
    split at member
    · rename_i answers
      obtain ⟨stored, rfl⟩ := mem_ofFamily_visit.mp (List.mem_of_mem_take member)
      exact ⟨stored, answers⟩
    · cases member
  exact (List.mem_append.mp chosen).elim (family false) (family true)

theorem picked_perm (s : Server) (raddr : Addr) (a : QueryArg) (env : Env) (ipv6 : Bool) :
    ∃ rest, (picked env s raddr a ipv6 ++ rest).Perm (ofFamily ipv6 (s.peersAt a.infoHash)) := by
  have same : (ofFamily ipv6 ((env.peerOrder ipv6).visit (s.peersAt a.infoHash))).Perm
      (ofFamily ipv6 (s.peersAt a.infoHash)) := ((env.peerOrder ipv6).perm _).filter _
  unfold picked
  split
  · exact ⟨_, by rw [List.take_append_drop]; exact same⟩
  · exact ⟨_, List.Perm.refl _⟩

theorem nodup_selected (texts : ((s.peersAt a.infoHash).map fun p => p.addr.string).Nodup)
    (env : Env) : ((selected env s raddr a).map fun p => p.addr.string).Nodup := by
  obtain ⟨rest, four⟩ := picked_perm s raddr a env false
  obtain ⟨rest', six⟩ := picked_perm s raddr a env true
  have both : (ofFamily false (s.peersAt a.infoHash) ++ ofFamily true (s.peersAt a.infoHash)).Perm
      (s.peersAt a.infoHash) := by
    simpa [ofFamily, Bool.beq_eq_decide_eq] using
      List.filter_append_perm (fun p : Peer => isIPv6 p.addr.ip == false) (s.peersAt a.infoHash)
  have whole := (four.append six).trans both
  refine ((whole.map fun p => p.addr.string).nodup_iff.mpr texts).sublist ?_
  exact ((List.sublist_append_left _ rest).append (List.sublist_append_left _ rest')).map _

theorem selected_eq_nil_iff (env : Env) (positive : 0 < s.conf.k) :
    selected env s raddr a = [] ↔ ∀ p ∈ s.peersAt a.infoHash, ¬ Requested raddr a p := by
  have family : ∀ ipv6, picked env s raddr a ipv6 = [] ↔
      ∀ p ∈ s.peersAt a.infoHash, isIPv6 p.addr.ip = ipv6 → ¬ Requested raddr a p := by
    intro ipv6
    unfold picked
    by_cases answers : Answers raddr a ipv6
    · rw [if_pos answers, List.take_eq_nil_iff, or_iff_right (by omega),
        List.eq_nil_iff_forall_not_mem]
      constructor
      · intro none' p stored same
        exact absurd (mem_ofFamily_visit.mpr ⟨stored, same⟩) (none' p)
      · intro none' p member
        obtain ⟨stored, same⟩ := mem_ofFamily_visit.mp member
        refine none' p stored same ?_
        rw [Requested, same]
        exact answers
    · rw [if_neg answers]
      refine iff_of_true rfl fun p _ same requested => answers ?_
      rw [← same]
      exact requested
  rw [selected, List.append_eq_nil_iff, family, family]
  constructor
  · rintro ⟨four, six⟩ p stored
    cases ipv6 : isIPv6 p.addr.ip with
    | false => exact four p stored ipv6
    | true => exact six p stored ipv6
  · intro none'
    exact ⟨fun p stored _ => none' p stored, fun p stored _ => none' p stored⟩

/-- More peers of a family that is asked for are stored than a reply can hold. -/
def Overfull (s : Server) (raddr : Addr) (a : QueryArg) : Prop :=
  ∃ ipv6, Answers raddr a ipv6 ∧
    s.conf.k < (ofFamily ipv6 (s.peersAt a.infoHash)).length

theorem mem_selected_of_requested (fits : ¬ Overfull s raddr a) {p : Peer}
    (stored : p ∈ s.peersAt a.infoHash) (requested : Requested raddr a p) :
    p ∈ selected env s raddr a := by
  have inside : p ∈ picked env s raddr a (isIPv6 p.addr.ip) := by
    unfold picked
    rw [if_pos (show Answers raddr a (isIPv6 p.addr.ip) from requested), List.take_of_length_le]
    · exact mem_ofFamily_visit.mpr ⟨stored, rfl⟩
    · have all : (ofFamily (isIPv6 p.addr.ip) ((env.peerOrder (isIPv6 p.addr.ip)).visit
          (s.peersAt a.infoHash))).length =
            (ofFamily (isIPv6 p.addr.ip) (s.peersAt a.infoHash)).length :=
        (((env.peerOrder _).perm _).filter _).length_eq
      have bound := not_lt.mp fun more => fits ⟨_, requested, more⟩
      rw [all]
      omega
  unfold selected
  cases ipv6 : isIPv6 p.addr.ip with
  | false =>
    rw [ipv6] at inside
    exact List.mem_append_left _ inside
  | true =>
    rw [ipv6] at inside
    exact List.mem_append_right _ inside

end Selection

/-! ### The reply -/

theorem exists_partner {α β : Type} {R : α → β → Prop} {xs : List α} {ys : List β}
    (paired : List.Forall₂ R xs ys) {x : α} (member : x ∈ xs) : ∃ y ∈ ys, R x y := by
  induction paired with
  | nil => cases member
  | cons here _ ih =>
    rcases List.mem_cons.mp member with rfl | later
    · exact ⟨_, List.mem_cons_self, here⟩
    · obtain ⟨y, inside, related⟩ := ih later
      exact ⟨y, List.mem_cons_of_mem _ inside, related⟩

/-- The values are the compact forms of different stored peers of families that are asked for. -/
def ValuesDecode (s : Server) (raddr : Addr) (a : QueryArg) (values : List GoString) : Prop :=
  ∃ peers : List Peer, peers.Nodup ∧
    (∀ p ∈ peers, p ∈ s.peersAt a.infoHash ∧ Requested raddr a p) ∧
    List.Forall₂ DecodesTo values peers

/-- At most `K` values for each family, and none for a family that is not asked for. -/
def Bounded (s : Server) (raddr : Addr) (a : QueryArg) (values : List GoString) : Prop :=
  ∃ values4 values6, values = values4 ++ values6 ∧ values4.length ≤ s.conf.k ∧
    values6.length ≤ s.conf.k ∧ (¬ Answers4 raddr a → values4 = []) ∧
    (¬ Answers6 raddr a → values6 = [])

/-- The values are the texts of different stored peers of families that are asked for. -/
def ValuesText (s : Server) (raddr : Addr) (a : QueryArg) (values : List GoString) : Prop :=
  values.Nodup ∧
    ∀ value ∈ values, ∃ p ∈ s.peersAt a.infoHash, Requested raddr a p ∧ value = p.addr.string

theorem valuesFor_bounded {env : Env} {s : Server} (plain : s.conf.customPeers = false)
    (positive : 0 < s.conf.k) (raddr : Addr) (a : QueryArg) :
    Bounded s raddr a (valuesFor env s raddr a) := by
  have bound : ∀ ipv6, ((picked env s raddr a ipv6).map fun p => p.addr.string).length ≤
      s.conf.k := by
    intro ipv6
    unfold picked
    rw [List.length_map]
    split
    · rw [List.length_take]
      omega
    · exact positive.le
  have empty : ∀ ipv6, ¬ Answers raddr a ipv6 →
      ((picked env s raddr a ipv6).map fun p => p.addr.string) = [] := by
    intro ipv6 unasked
    rw [picked, if_neg unasked]
    rfl
  rw [valuesFor_eq plain, selected, List.map_append]
  exact ⟨_, _, rfl, bound false, bound true, empty false, empty true⟩

theorem valuesFor_text {env : Env} {s : Server} (plain : s.conf.customPeers = false)
    (raddr : Addr) (a : QueryArg)
    (texts : ((s.peersAt a.infoHash).map fun p => p.addr.string).Nodup) :
    ValuesText s raddr a (valuesFor env s raddr a) := by
  rw [valuesFor_eq plain]
  refine ⟨nodup_selected texts env, fun value member => ?_⟩
  obtain ⟨p, chosen, rfl⟩ := List.mem_map.mp member
  obtain ⟨stored, requested⟩ := mem_selected chosen
  exact ⟨p, stored, requested, rfl⟩

theorem valuesDecode_of_none {env : Env} {s : Server} (plain : s.conf.customPeers = false)
    (positive : 0 < s.conf.k) {raddr : Addr} {a : QueryArg}
    (none' : ∀ p ∈ s.peersAt a.infoHash, ¬ Requested raddr a p) :
    ValuesDecode s raddr a (valuesFor env s raddr a) := by
  rw [valuesFor_eq plain, (selected_eq_nil_iff env positive).mpr none']
  exact ⟨[], List.nodup_nil, by simp, .nil⟩

/-- If all the peers that are asked for are in the reply and their texts are compact forms, each of
them stands for another one, and no chain of such peers is longer than two. -/
theorem none_of_valuesDecode {env : Env} {s : Server} (plain : s.conf.customPeers = false)
    (positive : 0 < s.conf.k) {raddr : Addr} {a : QueryArg} (fits : ¬ Overfull s raddr a)
    (decode : ValuesDecode s raddr a (valuesFor env s raddr a)) :
    ∀ p ∈ s.peersAt a.infoHash, ¬ Requested raddr a p := by
  rw [valuesFor_eq plain] at decode
  obtain ⟨peers, _, stored, decode⟩ := decode
  rw [List.forall₂_map_left_iff] at decode
  rw [← selected_eq_nil_iff env positive]
  by_contra some'
  have next : ∀ p ∈ selected env s raddr a, ∃ other ∈ selected env s raddr a,
      DecodesTo p.addr.string other := by
    intro p member
    obtain ⟨other, listed, decodes⟩ := exists_partner decode member
    obtain ⟨inside, requested⟩ := stored other listed
    exact ⟨other, mem_selected_of_requested fits inside requested, decodes⟩
  obtain ⟨p, member⟩ := List.exists_mem_of_ne_nil _ some'
  obtain ⟨first, member1, decodes1⟩ := next p member
  obtain ⟨second, member2, decodes2⟩ := next first member1
  obtain ⟨third, _, decodes3⟩ := next second member2
  exact decodes_chain_ends decodes1 decodes2 decodes3

theorem config_k_pos (conf : Config) (random : Hash) : 0 < (conf.set random).k := by
  unfold Config.set
  dsimp only
  split
  · decide
  · omega

/-- The result in the reply to a `get_peers` query: the values, or else the closest nodes, and a
token. -/
def getPeersResult (env : Env) (s : Server) (raddr : Addr) (a : QueryArg) : ResponseResult :=
  let values := valuesFor env s raddr a
  { (if values.length = 0 then closestNodes s raddr a a.infoHash { values := values }
      else { values := values }) with
    token := (s.tokenManager.token raddr env.now).1 }

theorem closestNodes_values (s : Server) (raddr : Addr) (a : QueryArg) (target : Hash)
    (r : ResponseResult) : (closestNodes s raddr a target r).values = r.values := by
  unfold closestNodes
  cases a.containsWant wantNodes <;> cases a.containsWant wantNodes6 <;>
    cases isIPv6 raddr.ip <;> rfl

theorem getPeersResult_values (env : Env) (s : Server) (raddr : Addr) (a : QueryArg) :
    (getPeersResult env s raddr a).values = valuesFor env s raddr a := by
  unfold getPeersResult
  dsimp only
  split
  · exact closestNodes_values s raddr a _ _
  · rfl

theorem handleQuery_getPeers_sent_iff (env : Env) (raddr : Addr) {m : Message}
    (isGet : m.q = queryMethodGetPeers) (s : Server) (addr : Addr) (msg : Message) :
    .sent addr msg ∈ (handleQuery env raddr m).effects s ↔
      addr = raddr ∧ msg = s.replyMsg m.t (getPeersResult env s raddr m.a) := by
  have notPing : ¬ m.q = queryMethodPing := by rw [isGet]; decide
  have notFind : ¬ m.q = queryMethodFindNode := by rw [isGet]; decide
  unfold handleQuery
  rw [Act.get_bind_effects, if_neg notPing, if_neg notFind, if_pos isGet]
  dsimp only
  rw [Act.bind_effects, Act.modify_effects, List.nil_append, Act.bind_effects, Act.emit_effects,
    List.mem_append, List.mem_singleton, reply_sent_iff, or_iff_left (by nofun)]
  rfl

/-- A query for the peers of the infohash `03..03`. -/
def peersMsg (wants : List Want) : Message :=
  newQueryMsg (str "aa") queryMethodGetPeers
    { id := Hash.fill 2, infoHash := Hash.fill 3, wants := wants }

def filedServer : Server := run step secretServer (searchEvents (Hash.fill 3))

theorem filedServer_peersAt : filedServer.peersAt (Hash.fill 3) =
    [⟨Hash.fill 3, honestAddr, str "tok", 0⟩] := by
  decide +kernel

end Server

end GoBt.Dht
