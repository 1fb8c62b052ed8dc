/-
**Searches for peers.**

`GetPeers` asks the nodes nearest to an infohash. The response to such a query can make the server
ask the nodes that it lists; the depth that is left and the ids visited so far travel in the
transactions.

* `collectNodes_rule` — the invariant rule for the loops over the nodes of a response.
* `step_getPeers`, `step_completed` — `GetPeers` and the handler of a response, as one loop of
  queries each. `getPeers_files` and `completed_files` say which transactions they file.
* `Copied` — no list of visited ids has spare capacity. While every `append` copies, lists that were
  passed on are never written (`step_copied`), so they are values.
* `Chain` — queries whose transactions the server filed, each because of the response to the one
  before it.
* **`chain_bounded`** — over every run, a chain has at most `SearchDepth` queries; while lists are
  values it asks no id twice; and a response with peers or with the infohash among its nodes makes
  the server send nothing.
-/

import GoBt.Dht.Histories

namespace GoBt.Dht

open GoBt.Lib GoBt.Metainfo GoBt.Krpc

namespace Server

/-! ### The loops over the nodes of a response -/

theorem addNode2_effects (env : Env) (node : Node) (ro : Bool) (s : Server) :
    (addNode2 env node ro).effects s = [] := by
  unfold addNode2
  rw [Act.ite_effects, Act.pure_effects, addNode_effects, ite_self]

theorem addNode2_keeps (env : Env) (node : Node) (ro : Bool) :
    Act.Keeps (fun s : Server => (s.fixed, s.transactionManager, s.slices))
      (addNode2 env node ro) :=
  Act.Keeps.ite (Act.Keeps.pure _) (addNode_keeps env node)

/-- What one turn of the loop makes of the accumulator and of the server. -/
inductive Visits (env : Env) (wanted : Hash) (ro : Bool) (node : Node) (acc : Collected)
    (s : Server) : Collected → Server → Prop
  | known (member : node.id ∈ s.slices.read acc.ids) :
      Visits env wanted ro node acc s { acc with found := acc.found || node.id == wanted } s
  | added (new : node.id ∉ s.slices.read acc.ids)
      (added : (addNode2 env node ro).value s = .nodeAdded) :
      Visits env wanted ro node acc s
        ⟨acc.found || node.id == wanted, acc.nodes ++ [node],
          (s.slices.append env.grow acc.ids node.id).1⟩
        { (addNode2 env node ro).state s with
          slices := (s.slices.append env.grow acc.ids node.id).2 }
  | refused (new : node.id ∉ s.slices.read acc.ids)
      (refused : (addNode2 env node ro).value s ≠ .nodeAdded) :
      Visits env wanted ro node acc s { acc with found := acc.found || node.id == wanted }
        ((addNode2 env node ro).state s)

theorem Visits.found_eq {env : Env} {wanted : Hash} {ro : Bool} {node : Node} {acc acc' : Collected}
    {s s' : Server} (visits : Visits env wanted ro node acc s acc' s') :
    acc'.found = (acc.found || node.id == wanted) := by
  cases visits <;> rfl

theorem collectNodes_cons (env : Env) (wanted : Hash) (ro : Bool) (node : Node) (rest : List Node)
    (acc : Collected) (s : Server) :
    ∃ acc' s', Visits env wanted ro node acc s acc' s' ∧
      collectNodes env wanted ro (node :: rest) acc s = collectNodes env wanted ro rest acc' s' := by
  have quiet := addNode2_effects env node ro s
  rw [collectNodes]
  dsimp only
  rw [Act.get_bind_apply]
  by_cases known : node.id ∈ s.slices.read acc.ids
  · rw [if_pos (hashesContain_iff.mpr known)]
    exact ⟨_, _, .known known, rfl⟩
  · rw [if_neg fun contains => known (hashesContain_iff.mp contains), Act.bind_of_quiet quiet]
    by_cases added : (addNode2 env node ro).value s = .nodeAdded
    · rw [if_pos added]
      exact ⟨_, _, .added known added, rfl⟩
    · rw [if_neg added]
      exact ⟨_, _, .refused known added, rfl⟩

/-- **The invariant rule of the loop.** -/
theorem collectNodes_rule {env : Env} {wanted : Hash} {ro : Bool} {R : Collected → Server → Prop}
    (keeps : ∀ node acc s acc' s', R acc s → Visits env wanted ro node acc s acc' s' → R acc' s')
    (nodes : List Node) {acc : Collected} {s : Server} (initial : R acc s) :
    R ((collectNodes env wanted ro nodes acc).value s)
      ((collectNodes env wanted ro nodes acc).state s) := by
  induction nodes generalizing acc s with
  | nil => exact initial
  | cons node rest ih =>
    obtain ⟨acc', s', visits, eq⟩ := collectNodes_cons env wanted ro node rest acc s
    unfold Act.value Act.state
    rw [eq]
    exact ih (keeps node acc s acc' s' initial visits)

theorem collectNodes_effects (env : Env) (wanted : Hash) (ro : Bool) (nodes : List Node)
    (acc : Collected) (s : Server) : (collectNodes env wanted ro nodes acc).effects s = [] := by
  induction nodes generalizing acc s with
  | nil => rfl
  | cons node rest ih =>
    obtain ⟨acc', s', _, eq⟩ := collectNodes_cons env wanted ro node rest acc s
    unfold Act.effects
    rw [eq]
    exact ih acc' s'

theorem collectNodes_found (env : Env) (wanted : Hash) (ro : Bool) (nodes : List Node)
    (acc : Collected) (s : Server) :
    ((collectNodes env wanted ro nodes acc).value s).found =
      (acc.found || nodes.any fun node => node.id == wanted) := by
  induction nodes generalizing acc s with
  | nil => exact (Bool.or_false _).symm
  | cons node rest ih =>
    obtain ⟨acc', s', visits, eq⟩ := collectNodes_cons env wanted ro node rest acc s
    unfold Act.value
    rw [eq]
    refine (ih acc' s').trans ?_
    rw [visits.found_eq, List.any_cons, Bool.or_assoc]

theorem collectNodes_append (env : Env) (wanted : Hash) (ro : Bool) (first second : List Node)
    (acc : Collected) :
    collectNodes env wanted ro (first ++ second) acc =
      collectNodes env wanted ro first acc >>= collectNodes env wanted ro second := by
  induction first generalizing acc with
  | nil => rfl
  | cons node rest ih =>
    simp only [List.cons_append, collectNodes, ih, Act.bind_assoc, Act.ite_bind]

/-! ### One level of a search -/

def listed (m : Message) : List Node := m.r.nodes ++ m.r.nodes6

/-- Both loops of a response handler. -/
def collect (env : Env) (wanted : Hash) (t : Transaction) (m : Message) : ServerM Collected :=
  collectNodes env wanted m.ro (listed m) ⟨false, [], t.visited⟩

theorem collect_effects (env : Env) (wanted : Hash) (t : Transaction) (m : Message) (s : Server) :
    (collect env wanted t m).effects s = [] := collectNodes_effects env wanted m.ro _ _ s

theorem collect_keeps (env : Env) (wanted : Hash) (t : Transaction) (m : Message) :
    Act.Keeps (fun s : Server => (s.fixed, s.transactionManager)) (collect env wanted t m) := by
  intro s
  refine collectNodes_rule (R := fun _ s' => (s'.fixed, s'.transactionManager) =
    (s.fixed, s.transactionManager)) (fun node acc s' acc' s'' same visits => ?_) (listed m) rfl
  have kept := addNode2_keeps env node m.ro s'
  have kept' : (((addNode2 env node m.ro).state s').fixed,
      ((addNode2 env node m.ro).state s').transactionManager) = (s'.fixed, s'.transactionManager) :=
    congrArg (fun part => (part.1, part.2.1)) kept
  cases visits with
  | known member => exact same
  | added new added | refused new refused => exact kept'.trans same

/-- The nodes that are asked after the loops. -/
def Collected.next (c : Collected) : List Node := if c.found = true then [] else c.nodes

theorem searchOn_eq (env : Env) (wanted : Hash) (t : Transaction) (m : Message)
    (next : Addr → Int → SliceRef → ServerM Unit) :
    searchOn env wanted t m next =
      if t.depth - 1 < 1 then pure ()
      else collect env wanted t m >>= fun c =>
        Act.forEach (fun node : Node => next node.addr (t.depth - 1) c.ids) c.next := by
  unfold searchOn collect listed
  dsimp only
  rw [collectNodes_append, Act.bind_assoc]
  have loops : ∀ six : Collected,
      (if six.found = true ∨ six.nodes.length = 0 then pure ()
        else Act.forEach (fun node : Node => next node.addr (t.depth - 1) six.ids) six.nodes) =
      Act.forEach (fun node : Node => next node.addr (t.depth - 1) six.ids) six.next := by
    intro six
    unfold Collected.next
    by_cases found : six.found = true
    · rw [if_pos (Or.inl found), if_pos found]
      rfl
    · rw [if_neg found]
      cases nodes : six.nodes with
      | nil => simp [Act.forEach]
      | cons node rest => simp [found]
  simp only [loops]

/-! ### The queries of a search -/

def queryMsg (t : Transaction) (readOnly : Bool) : Message :=
  { newQueryMsg t.id t.query t.arg with ro := readOnly }

section Asking

variable (env : Env) (info : Hash) (depth : Int) (ids : SliceRef) (callback : Option Nat)

/-- The transaction is one of a `getPeers` call. -/
structure Asks (t : Transaction) : Prop where
  search : t.onResponse = .onGetPeersResp
  info : t.arg.infoHash = info
  depth : t.depth = depth
  visited : t.visited = ids

theorem request_keeps (t : Transaction) :
    Act.Keeps (fun s : Server => (s.fixed, s.slices)) (request env t) := by
  intro s
  rw [request_state]
  split
  · rfl
  · split <;> rfl

/-- A loop of `getPeers` calls. -/
abbrev askAll (nodes : List Node) : ServerM Unit :=
  Act.forEach (fun node : Node => getPeersFrom env info node.addr depth ids callback) nodes

theorem askAll_slices (nodes : List Node) (s : Server) :
    ((askAll env info depth ids callback nodes).state s).slices = s.slices :=
  congrArg Prod.snd (Act.Keeps.forEach (fun _ : Node => Act.Keeps.bind Act.Keeps.get fun _ =>
    Act.Keeps.bind (request_keeps env _) fun _ => Act.Keeps.pure _) nodes s)

/-- **What a loop of `getPeers` calls files**: transactions of the calls. -/
theorem askAll_pending (nodes : List Node) (s : Server) {key : TransactionKey} {t : Transaction}
    (pending : ((askAll env info depth ids callback nodes).state s).transactionManager.pending key =
      some t) :
    s.transactionManager.pending key = some t ∨ Asks info depth ids t := by
  induction nodes generalizing s with
  | nil => exact Or.inl pending
  | cons node rest ih =>
    rcases ih _ pending with before | asks
    · change ((request env (getPeersTransaction s.want info node.addr depth ids callback
        env.now)).state s).transactionManager.pending key = some t at before
      rw [request_state] at before
      split at before
      · exact Or.inl before
      · split at before
        · change ((s.identify _).2.transactionManager.addTransaction _).pending key = some t at before
          rw [TransactionManager.pending_addTransaction] at before
          split at before
          · obtain rfl := Option.some.inj before
            exact Or.inr ⟨rfl, rfl, rfl, rfl⟩
          · exact Or.inl before
        · exact Or.inl before
    · exact Or.inr asks

theorem askAll_sent (nodes : List Node) (s : Server) {addr : Addr} {msg : Message}
    (sent : .sent addr msg ∈ (askAll env info depth ids callback nodes).effects s) :
    ∃ node ∈ nodes, addr = node.addr := by
  induction nodes generalizing s with
  | nil => cases sent
  | cons node rest ih =>
    rw [askAll, Act.forEach, Act.bind_effects, List.mem_append] at sent
    rcases sent with here | later
    · rw [getPeersFrom, Act.get_bind_effects, Act.bind_effects, Act.pure_effects,
        List.append_nil] at here
      exact ⟨node, List.mem_cons_self, ((request_sent_iff env _ s addr msg).mp here).2.1⟩
    · obtain ⟨other, member, same⟩ := ih _ later
      exact ⟨other, List.mem_cons_of_mem _ member, same⟩

end Asking

/-- **`GetPeers` as one loop**: it does nothing for the zero infohash and if no node is known. -/
theorem step_getPeers (env : Env) (infohash : Hash) (callback : Option Nat) (s : Server) :
    s.step (.getPeers env infohash callback) =
      if infohash.isZero = true ∨ s.nearNodes infohash = [] then s
      else
        let ids := s.slices.alloc ((s.nearNodes infohash).map Node.id) (s.nearNodes infohash).length
        (askAll env infohash s.conf.searchDepth ids.1 callback (s.nearNodes infohash)).state
          { s with slices := ids.2 } := by
  show (getPeers env infohash callback).state s = _
  rw [getPeers]
  by_cases zero : infohash.isZero = true
  · rw [if_pos zero, if_pos (Or.inl zero)]
    rfl
  · rw [if_neg zero, Act.get_bind_state]
    dsimp only
    by_cases none : s.nearNodes infohash = []
    · rw [if_pos (List.length_eq_zero_iff.mpr none), if_pos (Or.inr none)]
      cases callback <;> rfl
    · rw [if_neg (none ∘ List.length_eq_zero_iff.mp), if_neg (not_or.mpr ⟨zero, none⟩)]
      rfl

/-- The server in which the response to a `get_peers` query goes on with the search. -/
def responded (env : Env) (s : Server) (kaddr : Addr) (m : Message) : Server :=
  (storeToken env kaddr m).state (received env s kaddr m)

theorem responded_keeps (env : Env) (s : Server) (kaddr : Addr) (m : Message) :
    (responded env s kaddr m).slices = s.slices ∧
      ∀ key t, (responded env s kaddr m).transactionManager.pending key = some t →
        s.transactionManager.pending key = some t := by
  have kept := addNodeOf_keeps env kaddr m.r.id m.ro s
  have slices : (received env s kaddr m).slices = s.slices := congrArg (fun part => part.2.2) kept
  have manager : (received env s kaddr m).transactionManager =
      (s.transactionManager.popTransaction m.t kaddr).2 :=
    congrArg (fun part => (part.2.1.popTransaction m.t kaddr).2) kept
  have fewer : ∀ key t, (received env s kaddr m).transactionManager.pending key = some t →
      s.transactionManager.pending key = some t := by
    intro key t pending
    rw [manager, TransactionManager.pending_popTransaction] at pending
    split at pending
    · cases pending
    · exact pending
  unfold responded storeToken
  rw [Act.ite_state]
  split
  · exact ⟨slices, fewer⟩
  · exact ⟨slices, fewer⟩

theorem done_not_sent (t : Transaction) (r : Result) (s : Server) (addr : Addr) (msg : Message) :
    .sent addr msg ∉ (done t r).effects s := by
  unfold done
  cases t.callback with
  | none => exact List.not_mem_nil
  | some name => exact fun member => nomatch List.mem_singleton.mp member

theorem onTorrent_not_sent (infohash : GoString) (values : List GoString) (s : Server) (addr : Addr)
    (msg : Message) :
    .sent addr msg ∉ (Act.forEach (fun value =>
      Act.emit (.onTorrent infohash value)) values : ServerM Unit).effects s := by
  induction values with
  | nil => exact List.not_mem_nil
  | cons value rest ih =>
    intro member
    rcases List.mem_append.mp member with here | later
    · cases List.mem_singleton.mp here
    · exact ih later

section Response

variable {env : Env} {s : Server} {kaddr : Addr} {decoded : Option Message} {m : Message}
  {t : Transaction}

def gathered (env : Env) (s : Server) (kaddr : Addr) (m : Message) (t : Transaction) : Collected :=
  (collect env t.arg.infoHash t m).value (responded env s kaddr m)

def Ends (m : Message) (t : Transaction) : Prop := 0 < m.r.values.length ∨ t.depth - 1 < 1

instance (m : Message) (t : Transaction) : Decidable (Ends m t) :=
  inferInstanceAs (Decidable (_ ∨ _))

/-- The loop of `getPeers` calls of the response. -/
def goOn (env : Env) (s : Server) (kaddr : Addr) (m : Message) (t : Transaction) : ServerM Unit :=
  askAll env t.arg.infoHash (t.depth - 1) (gathered env s kaddr m t).ids t.callback
    (gathered env s kaddr m t).next

/-- **The response to a `get_peers` query as one loop.** -/
theorem step_completed (complete : completed env s kaddr decoded = some (m, t))
    (search : t.onResponse = .onGetPeersResp) :
    s.step (.packet env kaddr decoded) =
      if Ends m t then responded env s kaddr m
      else (goOn env s kaddr m t).state
        ((collect env t.arg.infoHash t m).state (responded env s kaddr m)) := by
  show (handlePacket env kaddr decoded).state s = _
  rw [handlePacket_completed_state complete, onResponse, search]
  show (searchPeers env t m).state (responded env s kaddr m) = _
  unfold goOn gathered
  generalize responded env s kaddr m = s'
  unfold searchPeers
  by_cases peers : 0 < m.r.values.length
  · rw [if_pos peers, if_pos (show Ends m t from Or.inl peers), Act.bind_state, done_state]
    have told : ∀ addr, Act.Keeps id
        (Act.emit (.onTorrent (Hex.encode t.arg.infoHash.bytes) addr) : ServerM Unit) := fun _ _ => rfl
    exact Act.Keeps.forEach told m.r.values s'
  · rw [if_neg peers, Act.bind_state, done_state, searchOn_eq]
    by_cases shallow : t.depth - 1 < 1
    · rw [if_pos shallow, if_pos (show Ends m t from Or.inr shallow)]
      rfl
    · rw [if_neg shallow, if_neg (show ¬ Ends m t from not_or.mpr ⟨peers, shallow⟩),
        Act.bind_state]

theorem completed_sent (complete : completed env s kaddr decoded = some (m, t))
    (search : t.onResponse = .onGetPeersResp) {addr : Addr} {msg : Message}
    (sent : .sent addr msg ∈ (perform (.packet env kaddr decoded)).effects s) :
    ¬ Ends m t ∧ ∃ node ∈ (gathered env s kaddr m t).next, addr = node.addr := by
  have stored : (storeToken env kaddr m).effects (received env s kaddr m) = [] := by
    unfold storeToken
    rw [Act.ite_effects, Act.modify_effects, Act.pure_effects, ite_self]
  have here := (handlePacket_completed_sent_iff complete addr msg).mp sent
  rw [onResponse, search] at here
  change .sent addr msg ∈ (onGetPeersResp env t kaddr m).effects _ at here
  rw [onGetPeersResp, Act.bind_effects, stored, List.nil_append] at here
  change .sent addr msg ∈ (searchPeers env t m).effects (responded env s kaddr m) at here
  unfold gathered
  generalize responded env s kaddr m = s' at here ⊢
  unfold searchPeers at here
  by_cases peers : 0 < m.r.values.length
  · rw [if_pos peers, Act.bind_effects, List.mem_append] at here
    rcases here with reported | told
    · exact absurd reported (done_not_sent t _ s' addr msg)
    · exact absurd told (onTorrent_not_sent _ _ _ addr msg)
  · rw [if_neg peers, Act.bind_effects, done_state, List.mem_append,
      or_iff_right (done_not_sent t _ s' addr msg), searchOn_eq] at here
    by_cases shallow : t.depth - 1 < 1
    · rw [if_pos shallow] at here
      cases here
    · rw [if_neg shallow, Act.bind_effects, collect_effects, List.nil_append] at here
      exact ⟨not_or.mpr ⟨peers, shallow⟩, askAll_sent _ _ _ _ _ _ _ here⟩

end Response

/-! ### Lists of visited ids as values -/

/-- In the event, an `append` to a full list of ids leaves no spare capacity, so that the next
`append` copies. -/
def Event.Copies : Event → Prop
  | .packet env _ _ => ∀ n, env.grow n = n
  | _ => True

/-- Arrays were added to `base` but none was written, and the lists of the pending transactions have
no spare capacity. -/
def Copied (base : SliceHeap Hash) (s : Server) : Prop :=
  base.Extends s.slices ∧ ∀ key t, s.transactionManager.pending key = some t →
    WellFormed t ∧ s.slices.Owned t.visited

theorem Copied.mono {base base' : SliceHeap Hash} {s : Server} (copied : Copied base' s)
    (more : base.Extends base') : Copied base s :=
  ⟨more.trans copied.1, copied.2⟩

theorem Copied.self {base : SliceHeap Hash} {s : Server} (copied : Copied base s) :
    Copied s.slices s :=
  ⟨SliceHeap.Extends.refl _, copied.2⟩

theorem Copied.of_pending {base : SliceHeap Hash} {s s' : Server} (copied : Copied base s)
    (more : s.slices.Extends s'.slices)
    (fewer : ∀ key t, s'.transactionManager.pending key = some t →
      s.transactionManager.pending key = some t) : Copied base s' := by
  refine ⟨copied.1.trans more, fun key t found => ?_⟩
  obtain ⟨wellFormed, owned⟩ := copied.2 key t (fewer key t found)
  exact ⟨wellFormed, owned.of_extends more⟩

theorem copied_managing (base : SliceHeap Hash) :
    Managing (fun _ => True) base.Owned (Copied base) where
  nil := base.owned_nil
  table4 s _ _ copied _ _ _ := copied
  table6 s _ _ copied _ _ _ := copied
  takeID s copied := copied
  file s t copied _ wellFormed owned := by
    refine ⟨copied.1, fun key t' found => ?_⟩
    have pending := s.transactionManager.pending_addTransaction t key
    change (s.transactionManager.addTransaction t).pending key = some t' at found
    rw [pending] at found
    split at found
    · obtain rfl := Option.some.inj found
      exact ⟨wellFormed, owned.of_extends copied.1⟩
    · exact copied.2 key t' found
  tokens s _ copied := copied
  peers s _ copied := copied
  pop s tid addr copied := by
    refine copied.of_pending (SliceHeap.Extends.refl _) fun key t found => ?_
    change (s.transactionManager.popTransaction tid addr).2.pending key = some t at found
    rw [TransactionManager.pending_popTransaction] at found
    split at found
    · cases found
    · exact found
  sweep s order now interval copied := by
    refine copied.of_pending (SliceHeap.Extends.refl _) fun key t found => ?_
    change (s.transactionManager.sweep order now interval).2.pending key = some t at found
    rw [TransactionManager.pending_sweep] at found
    exact (Option.filter_eq_some_iff.mp found).1
  check4 s _ copied := copied
  check6 s _ copied := copied

/-- What the loops over the nodes of a response collect, as values: the ids of the new nodes behind
those visited before. -/
structure Collects (visited : List Hash) (s : Server) (c : Collected) (s' : Server) : Prop where
  more : s.slices.Extends s'.slices
  owned : s'.slices.Owned c.ids
  ids : s'.slices.read c.ids = visited ++ c.nodes.map Node.id
  new : ∀ node ∈ c.nodes, node.id ∉ visited

theorem Visits.collects {env : Env} (exact : ∀ n, env.grow n = n) {wanted : Hash} {ro : Bool}
    {node : Node} {visited : List Hash} {s s' s'' : Server} {acc acc' : Collected}
    (visits : Visits env wanted ro node acc s' acc' s'') (collects : Collects visited s acc s') :
    Collects visited s acc' s'' := by
  have same : ((addNode2 env node ro).state s').slices = s'.slices :=
    congrArg (fun part => part.2.2) (addNode2_keeps env node ro s')
  cases visits with
  | known member => exact ⟨collects.more, collects.owned, collects.ids, collects.new⟩
  | added new added =>
    have copies := SliceHeap.append_of_owned collects.owned env.grow node.id
    rw [exact] at copies
    have whole : acc.ids.len + 1 = (s'.slices.read acc.ids ++ [node.id]).length := by
      rw [List.length_append, collects.owned.whole, List.length_singleton]
    refine ⟨?_, ?_, ?_, ?_⟩
    · show s.slices.Extends (s'.slices.append env.grow acc.ids node.id).2
      rw [copies]
      exact collects.more.trans (SliceHeap.alloc_extends _ _ _)
    · show (s'.slices.append env.grow acc.ids node.id).2.Owned
        (s'.slices.append env.grow acc.ids node.id).1
      rw [copies]
      exact SliceHeap.alloc_owned _ whole
    · show (s'.slices.append env.grow acc.ids node.id).2.read
        (s'.slices.append env.grow acc.ids node.id).1 = _
      rw [copies, SliceHeap.read_alloc, collects.ids, List.map_append, List.append_assoc]
      rfl
    · intro other member
      rcases List.mem_append.mp member with old | here
      · exact collects.new other old
      · rw [List.mem_singleton.mp here]
        intro visitedBefore
        exact new (collects.ids ▸ List.mem_append_left _ visitedBefore)
  | refused new refused =>
    refine ⟨?_, ?_, ?_, collects.new⟩
    · rw [same]
      exact collects.more
    · rw [same]
      exact collects.owned
    · rw [same]
      exact collects.ids

theorem collect_collects {env : Env} (exact : ∀ n, env.grow n = n) (wanted : Hash) {t : Transaction}
    (m : Message) {s : Server} (owned : s.slices.Owned t.visited) :
    Collects (s.slices.read t.visited) s ((collect env wanted t m).value s)
      ((collect env wanted t m).state s) := by
  refine collectNodes_rule (fun node acc s' acc' s'' collects visits =>
    visits.collects exact collects) (listed m) ?_
  exact ⟨SliceHeap.Extends.refl _, owned, (List.append_nil _).symm, fun node member => nomatch member⟩

theorem searchOn_copied {env : Env} (exact : ∀ n, env.grow n = n) (wanted : Hash) {t : Transaction}
    (m : Message) {next : Addr → Int → SliceRef → ServerM Unit}
    (each : ∀ base addr depth ids, base.Owned ids →
      Act.Preserves (Copied base) (next addr depth ids))
    {base : SliceHeap Hash} {s : Server} (copied : Copied base s)
    (owned : s.slices.Owned t.visited) :
    Copied base ((searchOn env wanted t m next).state s) := by
  rw [searchOn_eq, Act.ite_state]
  split
  · exact copied
  · have collects := collect_collects exact wanted m owned
    have same : ((collect env wanted t m).state s).transactionManager = s.transactionManager :=
      congrArg Prod.snd (collect_keeps env wanted t m s)
    rw [Act.bind_state]
    generalize (collect env wanted t m).value s = c at collects ⊢
    generalize (collect env wanted t m).state s = s' at collects same ⊢
    have copied' : Copied base s' := copied.of_pending collects.more fun key t found => same ▸ found
    have after : Copied s'.slices _ := Act.Preserves.forEach
      (fun node : Node => each s'.slices node.addr (t.depth - 1) c.ids collects.owned) c.next s'
      copied'.self
    exact after.mono copied'.1

theorem onResponse_copied {env : Env} (exact : ∀ n, env.grow n = n) {t : Transaction}
    (wellFormed : WellFormed t) (a : Addr) (m : Message) {base : SliceHeap Hash} {s : Server}
    (copied : Copied base s) (owned : s.slices.Owned t.visited) :
    Copied base ((onResponse env t a m).state s) := by
  unfold onResponse
  cases handler : t.onResponse with
  | noopResponse => exact copied
  | onPingResp => exact Elementary.done t _ s copied
  | onGetPeersResp =>
    have stored : Copied base ((storeToken env a m).state s) ∧
        ((storeToken env a m).state s).slices = s.slices := by
      unfold storeToken
      rw [Act.ite_state]
      split
      · exact ⟨copied, rfl⟩
      · exact ⟨copied, rfl⟩
    show Copied base ((searchPeers env t m).state ((storeToken env a m).state s))
    obtain ⟨copied', same⟩ := stored
    generalize (storeToken env a m).state s = s' at copied' same ⊢
    unfold searchPeers
    rw [Act.ite_state]
    split
    · refine Act.Preserves.bind (Elementary.done t _) (fun _ => ?_) s' copied'
      exact Act.Preserves.forEach (fun _ => Act.Preserves.emit _) _
    · rw [Act.bind_state, done_state]
      refine searchOn_copied exact _ m (fun base addr depth ids carries => ?_) copied'
        (same ▸ owned)
      exact (copied_managing base).getPeersFrom env (wellFormed handler) addr depth carries _
  | onFindNodeResp =>
    show Copied base ((onFindNodeResp env t m).state s)
    unfold onFindNodeResp
    rw [Act.bind_state, done_state]
    refine searchOn_copied exact _ m (fun base addr depth ids carries => ?_) copied owned
    exact Act.Preserves.bind ((copied_managing base).findNodeFrom env _ addr depth carries)
      fun _ => Act.Preserves.pure _

theorem getPeers_copied (env : Env) (infohash : Hash) (callback : Option Nat)
    (base : SliceHeap Hash) : Act.Preserves (Copied base) (getPeers env infohash callback) := by
  intro s copied
  unfold getPeers
  by_cases zero : infohash.isZero = true
  · rw [if_pos zero]
    exact copied
  · rw [if_neg zero, Act.get_bind_state]
    dsimp only
    rw [Act.ite_state]
    split
    · cases callback with
      | none => exact copied
      | some name => exact copied
    · have more := SliceHeap.alloc_extends s.slices ((s.nearNodes infohash).map Node.id)
        (s.nearNodes infohash).length
      have size : (s.nearNodes infohash).length = ((s.nearNodes infohash).map Node.id).length :=
        (List.length_map _).symm
      have owned := SliceHeap.alloc_owned s.slices size
      rw [Act.bind_state, Act.modify_state, Act.bind_state, Act.pure_state]
      generalize s.slices.alloc ((s.nearNodes infohash).map Node.id)
        (s.nearNodes infohash).length = ids at more owned ⊢
      have copied' : Copied base { s with slices := ids.2 } :=
        copied.of_pending more fun _ _ found => found
      have after := Act.Preserves.forEach (fun node : Node =>
        (copied_managing ids.2).getPeersFrom env (Bool.eq_false_iff.mpr zero) node.addr
          s.conf.searchDepth owned callback) (s.nearNodes infohash) _ copied'.self
      exact after.mono copied'.1

/-- **One event writes no list that was passed on.** -/
theorem step_copied {base : SliceHeap Hash} {s : Server} {event : Event} (copies : event.Copies)
    (copied : Copied base s) : Copied base (s.step event) := by
  refine (copied_managing base).step s event event.allowed_any
    (fun env kaddr m same s t copied pending => ?_)
    (fun env infohash callback _ => getPeers_copied env infohash callback base) copied
  subst same
  obtain ⟨wellFormed, owned⟩ := copied.2 _ t pending
  exact onResponse_copied copies wellFormed kaddr m ((copied_managing base).pop s m.t kaddr copied)
    owned

theorem newServer_copied (config : Config) (setup : Setup) :
    Copied ⟨[]⟩ (newServer config setup) :=
  ⟨SliceHeap.Extends.refl _, fun _ _ found => nomatch found⟩

theorem run_extends {start : Server} {base : SliceHeap Hash} (initial : Copied base start)
    {events later : List Event} (copies : ∀ event ∈ events ++ later, event.Copies) :
    (run step start events).slices.Extends (run step start (events ++ later)).slices := by
  obtain ⟨first, second⟩ := List.forall_mem_append.mp copies
  have reached : Copied base (run step start events) :=
    run_holds_of_mem step (fun s event copied copies => step_copied copies copied) initial first
  rw [run_append]
  exact (run_holds_of_mem step (P := Copied (run step start events).slices)
    (fun s event copied copies => step_copied copies copied) reached.self second).1

/-! ### Chains of queries -/

/-- A query of a search: the node that is asked, and the transaction. -/
structure Query where
  node : Node
  t : Transaction
  deriving DecidableEq

/-- The event files the transaction of the query: it is pending after the event and was not before
it, and it is one with the address of the node. -/
def Files (s : Server) (event : Event) (q : Query) : Prop :=
  q.t.addr = q.node.addr ∧ ∃ key, (s.step event).transactionManager.pending key = some q.t ∧
    s.transactionManager.pending key ≠ some q.t

/-- Along a run, a chain of queries for an infohash: the last query and the earlier ones. The first
was filed by `GetPeers`, for one of the nearest nodes, each other one because of the response to the
one before it, for one of the nodes that the response brought. -/
inductive Chain (start : Server) (infohash : Hash) : List Event → Query → List Query → Prop
  | call {events : List Event} {env : Env} {callback : Option Nat} {q : Query}
      (filed : (run step start events).Files (.getPeers env infohash callback) q)
      (near : q.node ∈ (run step start events).nearNodes infohash) :
      Chain start infohash (events ++ [.getPeers env infohash callback]) q []
  | response {events : List Event} {q : Query} {earlier : List Query}
      (before : Chain start infohash events q earlier) (later : List Event) {env : Env}
      {kaddr : Addr} {decoded : Option Message} {m : Message}
      (complete : completed env (run step start (events ++ later)) kaddr decoded = some (m, q.t))
      {q' : Query}
      (filed : (run step start (events ++ later)).Files (.packet env kaddr decoded) q')
      (brought : q'.node ∈ (gathered env (run step start (events ++ later)) kaddr m q.t).nodes) :
      Chain start infohash (events ++ later ++ [.packet env kaddr decoded]) q' (q :: earlier)

/-- **What `GetPeers` files.** -/
theorem getPeers_files {env : Env} {infohash : Hash} {callback : Option Nat} {s : Server}
    {q : Query} (filed : s.Files (.getPeers env infohash callback) q) :
    let ids := s.slices.alloc ((s.nearNodes infohash).map Node.id) (s.nearNodes infohash).length
    (s.step (.getPeers env infohash callback)).slices = ids.2 ∧
      Asks infohash s.conf.searchDepth ids.1 q.t := by
  obtain ⟨_, key, after, before⟩ := filed
  have state := step_getPeers env infohash callback s
  split at state
  · rw [state] at after
    exact absurd after before
  · rw [state] at after ⊢
    refine ⟨askAll_slices _ _ _ _ _ _ _, ?_⟩
    exact (askAll_pending _ _ _ _ _ _ _ after).resolve_left before

/-- **What the response to a `get_peers` query files.** -/
theorem completed_files {env : Env} {s : Server} {kaddr : Addr} {decoded : Option Message}
    {m : Message} {t : Transaction} (complete : completed env s kaddr decoded = some (m, t))
    (search : t.onResponse = .onGetPeersResp) {q : Query}
    (filed : s.Files (.packet env kaddr decoded) q) :
    ¬ Ends m t ∧ (s.step (.packet env kaddr decoded)).slices =
        ((collect env t.arg.infoHash t m).state (responded env s kaddr m)).slices ∧
      Asks t.arg.infoHash (t.depth - 1) (gathered env s kaddr m t).ids q.t := by
  obtain ⟨_, key, after, before⟩ := filed
  have state := step_completed complete search
  have fewer := (responded_keeps env s kaddr m).2 key q.t
  by_cases ends : Ends m t
  · rw [state, if_pos ends] at after
    exact absurd (fewer after) before
  · rw [if_neg ends] at state
    rw [state] at after ⊢
    have manager : ((collect env t.arg.infoHash t m).state
        (responded env s kaddr m)).transactionManager =
          (responded env s kaddr m).transactionManager :=
      congrArg Prod.snd (collect_keeps env t.arg.infoHash t m _)
    refine ⟨ends, askAll_slices _ _ _ _ _ _ _, ?_⟩
    refine (askAll_pending _ _ _ _ _ _ _ after).resolve_left fun old => before (fewer ?_)
    rwa [manager] at old

theorem Chain.depth {start : Server} (sound : start.Sound)
    (positive : 1 ≤ start.conf.searchDepth) {infohash : Hash} {events : List Event} {q : Query}
    {earlier : List Query} (chain : Chain start infohash events q earlier) :
    1 ≤ q.t.depth ∧ q.t.depth + earlier.length = start.conf.searchDepth ∧
      ∀ q' ∈ q :: earlier, q'.t.onResponse = .onGetPeersResp ∧ q'.t.arg.infoHash = infohash := by
  induction chain with
  | @call events env callback q filed near =>
    have same : (run step start events).conf = start.conf :=
      congrArg Prod.fst (run_settings sound events)
    obtain ⟨_, search, info, depth, _⟩ := getPeers_files filed
    rw [same] at depth
    refine ⟨depth ▸ positive, ?_, ?_⟩
    · rw [depth, List.length_nil, Nat.cast_zero, add_zero]
    · exact List.forall_mem_singleton.mpr ⟨search, info⟩
  | @response events q earlier before later env kaddr decoded m complete q' filed brought ih =>
    obtain ⟨_, total, all⟩ := ih
    obtain ⟨search, info⟩ := all q List.mem_cons_self
    obtain ⟨goesOn, _, search', info', depth', _⟩ := completed_files complete search filed
    have deep := (not_or.mp goesOn).2
    refine ⟨by omega, ?_, List.forall_mem_cons.mpr ⟨⟨search', info'.trans info⟩, all⟩⟩
    rw [depth', List.length_cons, Nat.cast_succ]
    omega

theorem gathered_collects {env : Env} (exact : ∀ n, env.grow n = n) {s : Server} (kaddr : Addr)
    (m : Message) {t : Transaction} (owned : s.slices.Owned t.visited) :
    Collects (s.slices.read t.visited) (responded env s kaddr m) (gathered env s kaddr m t)
      ((collect env t.arg.infoHash t m).state (responded env s kaddr m)) := by
  have kept := (responded_keeps env s kaddr m).1
  have collects := collect_collects exact t.arg.infoHash m (kept.symm ▸ owned)
  rwa [kept] at collects

theorem Chain.visited {start : Server} {base : SliceHeap Hash} (initial : Copied base start)
    (sound : start.Sound) (positive : 1 ≤ start.conf.searchDepth) {infohash : Hash}
    {events : List Event} {q : Query} {earlier : List Query}
    (chain : Chain start infohash events q earlier) (copies : ∀ event ∈ events, event.Copies) :
    (run step start events).slices.Owned q.t.visited ∧
      (∀ q' ∈ q :: earlier, q'.node.id ∈ (run step start events).slices.read q.t.visited) ∧
      ((q :: earlier).map fun q' => q'.node.id).Nodup := by
  induction chain with
  | @call events env callback q filed near =>
    obtain ⟨arrays, _, _, _, visited⟩ := getPeers_files filed
    have size : ((run step start events).nearNodes infohash).length =
        (((run step start events).nearNodes infohash).map Node.id).length :=
      (List.length_map _).symm
    rw [run_append, run_cons, run_nil, arrays, visited]
    refine ⟨SliceHeap.alloc_owned _ size, ?_, List.nodup_singleton _⟩
    rw [SliceHeap.read_alloc]
    exact List.forall_mem_singleton.mpr (List.mem_map_of_mem near)
  | @response events q earlier before later env kaddr decoded m complete q' filed brought ih =>
    obtain ⟨copiesBefore, copiesHere⟩ := List.forall_mem_append.mp copies
    have exact : ∀ n, env.grow n = n := List.forall_mem_singleton.mp copiesHere
    obtain ⟨owned, known, distinct⟩ := ih (List.forall_mem_append.mp copiesBefore).1
    -- The list of the answered query reads as it did when the query was filed.
    have more := run_extends initial copiesBefore
    have same := SliceHeap.read_of_extends owned more
    obtain ⟨search, _⟩ := (before.depth sound positive).2.2 q List.mem_cons_self
    obtain ⟨_, arrays, _, _, _, visited⟩ := completed_files complete search filed
    have collects := gathered_collects exact kaddr m (owned.of_extends more)
    rw [run_append, run_cons, run_nil, arrays, visited]
    rw [same] at collects
    refine ⟨collects.owned, ?_, ?_⟩
    · rw [collects.ids]
      refine List.forall_mem_cons.mpr ⟨List.mem_append_right _ (List.mem_map_of_mem brought), ?_⟩
      exact fun q'' member => List.mem_append_left _ (known q'' member)
    · refine List.nodup_cons.mpr ⟨fun repeated => ?_, distinct⟩
      obtain ⟨q'', member, again⟩ := List.mem_map.mp repeated
      have sameId : q''.node.id = q'.node.id := again
      exact collects.new q'.node brought (sameId ▸ known q'' member)

theorem Collected.mem_next {c : Collected} {node : Node} :
    node ∈ c.next ↔ c.found = false ∧ node ∈ c.nodes := by
  unfold Collected.next
  cases c.found <;> simp

/-- **Searches for peers are bounded and do not revisit.** Along every run of a server, a chain of
`get_peers` queries has at most `SearchDepth` queries, and if lists of visited ids are values, it
asks no id twice. If the response to its last query makes the server send a query, whether or not
the transaction of it gets filed, then there is room for one more, the response neither carries
peers nor lists a node whose id is the infohash, and if lists are values, a node with a new id is
asked. -/
theorem chain_bounded (config : Config) (setup : Setup) (infohash : Hash) (events : List Event)
    (q : Query) (earlier : List Query)
    (chain : Chain (newServer config setup) infohash events q earlier) :
    ((q :: earlier).length : Int) ≤ (newServer config setup).conf.searchDepth ∧
      ((∀ event ∈ events, event.Copies) → ((q :: earlier).map fun q' => q'.node.id).Nodup) ∧
      ∀ later env kaddr decoded m addr msg,
        let s := run step (newServer config setup) (events ++ later)
        completed env s kaddr decoded = some (m, q.t) →
        .sent addr msg ∈ (perform (.packet env kaddr decoded)).effects s →
        ((q :: earlier).length : Int) < (newServer config setup).conf.searchDepth ∧
          m.r.values = [] ∧ (∀ node ∈ listed m, node.id ≠ infohash) ∧
          ((∀ event ∈ events ++ later ++ [.packet env kaddr decoded], event.Copies) →
            ∃ node ∈ (gathered env s kaddr m q.t).nodes, addr = node.addr ∧
              ∀ q' ∈ q :: earlier, q'.node.id ≠ node.id) := by
  have positive : 1 ≤ (newServer config setup).conf.searchDepth := by
    show 1 ≤ if config.searchDepth < 1 then 8 else config.searchDepth
    split
    · decide
    · exact not_lt.mp ‹_›
  have sound := newServer_sound config setup
  have initial := newServer_copied config setup
  obtain ⟨left, total, all⟩ := chain.depth sound positive
  refine ⟨?_, fun copies => ?_, ?_⟩
  · rw [List.length_cons, Nat.cast_succ]
    omega
  · exact (chain.visited initial sound positive copies).2.2
  · intro later env kaddr decoded m addr msg s complete sent
    obtain ⟨search, info⟩ := all q List.mem_cons_self
    obtain ⟨goesOn, node, inside, address⟩ := completed_sent complete search sent
    obtain ⟨noPeers, deep⟩ := not_or.mp goesOn
    obtain ⟨notFound, brought⟩ := Collected.mem_next.mp inside
    refine ⟨?_, List.eq_nil_of_length_eq_zero (Nat.eq_zero_of_not_pos noPeers), ?_, ?_⟩
    · rw [List.length_cons, Nat.cast_succ]
      omega
    · intro other listed isTarget
      rw [gathered, collect, collectNodes_found, Bool.false_or, info] at notFound
      have missed := List.any_eq_false.mp notFound other listed
      rw [isTarget, beq_self_eq_true] at missed
      exact missed rfl
    · intro copies
      obtain ⟨before, here⟩ := List.forall_mem_append.mp copies
      obtain ⟨owned, known, _⟩ :=
        chain.visited initial sound positive (List.forall_mem_append.mp before).1
      have more := run_extends initial before
      have collects := gathered_collects (List.forall_mem_singleton.mp here) kaddr m
        (owned.of_extends more)
      refine ⟨node, brought, address, fun q' member same => collects.new node brought ?_⟩
      rw [SliceHeap.read_of_extends owned more, ← same]
      exact known q' member

/-- The two nodes of a small search, and the response of the first, which lists the second. -/
def askedNode : Node := ⟨Hash.fill 0x80, ⟨[10, 0, 0, 1], 1⟩⟩

def listedNode : Node := ⟨Hash.fill 0x40, ⟨[10, 0, 0, 2], 2⟩⟩

def listingMsg : Message := newResponseMsg (str "1") { id := askedNode.id, nodes := [listedNode] }

def smallQuery (node : Node) (serial : Nat) (id : GoString) (depth : Int) (visited : SliceRef) :
    Query where
  node := node
  t :=
    { serial := serial
      id := id
      query := queryMethodGetPeers
      arg := { id := Hash.fill 1, infoHash := Hash.fill 3, wants := [wantNodes, wantNodes6] }
      addr := node.addr
      time := 0
      depth := depth
      visited := visited
      onResponse := .onGetPeersResp }

/-- The query to `askedNode`, the only node that the server knows. -/
def firstQuery : Query := smallQuery askedNode 1 (str "1") 8 ⟨0, 1, 1⟩

/-- The query to `listedNode` because of the response of `askedNode`. -/
def secondQuery : Query := smallQuery listedNode 2 (str "2") 7 ⟨1, 2, 2⟩

theorem chain_of_two_bounded :
    let events := [.addNode {} askedNode, .getPeers {} (Hash.fill 3) none] ++ [] ++
      [.packet {} askedNode.addr (some listingMsg)]
    Chain (newServer {} {}) (Hash.fill 3) events secondQuery [firstQuery] ∧
      ([secondQuery, firstQuery].length : Int) ≤ (newServer {} {}).conf.searchDepth ∧
      ([secondQuery, firstQuery].map fun q => q.node.id).Nodup := by
  intro events
  have call : Chain (newServer {} {}) (Hash.fill 3)
      ([.addNode {} askedNode] ++ [.getPeers {} (Hash.fill 3) none]) firstQuery [] := by
    refine .call ⟨rfl, firstQuery.t.key, ?_, ?_⟩ ?_ <;> decide +kernel
  have chain : Chain (newServer {} {}) (Hash.fill 3) events secondQuery [firstQuery] := by
    refine .response call [] (m := listingMsg) ?_ ⟨rfl, secondQuery.t.key, ?_, ?_⟩ ?_ <;>
      decide +kernel
  obtain ⟨short, distinct, _⟩ := chain_bounded {} {} (Hash.fill 3) events _ _ chain
  refine ⟨chain, short, distinct ?_⟩
  intro event member
  simp only [events, List.append_nil, List.cons_append, List.nil_append, List.mem_cons,
    List.not_mem_nil, or_false] at member
  rcases member with rfl | rfl | rfl
  · trivial
  · trivial
  · exact fun _ => rfl

end Server

end GoBt.Dht
