/-
**What a run does to the token managers.**

A datagram goes through the checks of `handlePacket` (`incoming`); a query also needs a sender whose
id is known under no other address (`IsQuery`); a response also needs a pending transaction
(`answered`).

* `tokenOps`, `peerOps` — the operations one event makes on the token manager and on the token-peer
  manager: only an answered `get_peers` query hands out a token, only a response with a token to a
  pending `get_peers` query stores one.
* **`run_tokenManager`, `run_tokenPeerManager`** — after every run the two managers are what these
  operations, in order, make of the new ones.
-/

import GoBt.Dht.ServerRuns

namespace GoBt.Dht

open GoBt.Lib GoBt.Metainfo GoBt.Krpc

namespace Server

/-! ### The way of a datagram -/

/-- The message that `handlePacket` and the user's hook leave to the server. -/
def incoming (env : Env) (s : Server) (kaddr : Addr) (decoded : Option Message) : Option Message :=
  if s.isDisabled kaddr || env.blacklisted kaddr then none
  else match decoded with
    | some m => if m.t = [] ∨ env.handleIn kaddr m = true then none else some m
    | none => none

def addrChanged (env : Env) (s : Server) (kaddr : Addr) (id : Hash) (ro : Bool) : Prop :=
  (addNodeOf env kaddr id ro).value s = .nodeExistAndChanged

instance (env : Env) (s : Server) (kaddr : Addr) (id : Hash) (ro : Bool) :
    Decidable (addrChanged env s kaddr id ro) :=
  inferInstanceAs (Decidable (_ = _))

/-- The message is a query that reaches `handleQuery`. -/
def IsQuery (env : Env) (s : Server) (kaddr : Addr) (m : Message) : Prop :=
  m.y = str "q" ∧ m.a.id.isZero = false ∧ ¬ addrChanged env s kaddr m.a.id m.ro ∧
    s.conf.readOnly = false

instance (env : Env) (s : Server) (kaddr : Addr) (m : Message) :
    Decidable (IsQuery env s kaddr m) :=
  inferInstanceAs (Decidable (_ ∧ _))

/-- The transaction that a response completes. -/
def answered (env : Env) (s : Server) (kaddr : Addr) (m : Message) : Option Transaction :=
  if m.y = str "r" ∧ m.r.id.isZero = false ∧ ¬ addrChanged env s kaddr m.r.id m.ro then
    s.transactionManager.pending ⟨m.t, kaddr.string⟩
  else none

theorem incoming_eq_some_iff {env : Env} {s : Server} {kaddr : Addr} {decoded : Option Message}
    {m : Message} :
    incoming env s kaddr decoded = some m ↔
      s.isDisabled kaddr = false ∧ env.blacklisted kaddr = false ∧ decoded = some m ∧ m.t ≠ [] ∧
        env.handleIn kaddr m = false := by
  unfold incoming
  cases s.isDisabled kaddr with
  | true => simp
  | false =>
    cases env.blacklisted kaddr with
    | true => simp
    | false =>
      cases decoded with
      | none => simp
      | some m' =>
        simp only [Bool.or_self, Bool.false_eq_true, if_false, Option.some.injEq, true_and]
        constructor
        · intro taken
          split at taken
          · cases taken
          · rename_i passes
            obtain rfl := Option.some.inj taken
            obtain ⟨named, unhooked⟩ := not_or.mp passes
            exact ⟨rfl, named, Bool.eq_false_iff.mpr unhooked⟩
        · rintro ⟨rfl, named, unhooked⟩
          rw [if_neg (not_or.mpr ⟨named, Bool.eq_false_iff.mp unhooked⟩)]

theorem answered_eq_some_iff {env : Env} {s : Server} {kaddr : Addr} {m : Message}
    {t : Transaction} :
    answered env s kaddr m = some t ↔
      (m.y = str "r" ∧ m.r.id.isZero = false ∧ ¬ addrChanged env s kaddr m.r.id m.ro) ∧
        s.transactionManager.pending ⟨m.t, kaddr.string⟩ = some t := by
  unfold answered
  split
  · exact (and_iff_right ‹_›).symm
  · exact iff_of_false (fun none => nomatch none) fun both => absurd both.1 ‹_›

theorem handlePacket_state (env : Env) (kaddr : Addr) (decoded : Option Message) (s : Server) :
    (handlePacket env kaddr decoded).state s =
      match incoming env s kaddr decoded with
      | some m => (dispatch env kaddr m).state s
      | none => s := by
  unfold handlePacket incoming
  rw [Act.get_bind_state, Act.ite_state, Act.ite_state]
  cases s.isDisabled kaddr with
  | true => rfl
  | false =>
    cases env.blacklisted kaddr with
    | true => rfl
    | false =>
      cases decoded with
      | none => rfl
      | some m =>
        unfold handleMessage
        by_cases named : m.t = []
        · simp [named]
        · cases hooked : env.handleIn kaddr m with
          | true | false => simp [named, hooked]

def completed (env : Env) (s : Server) (kaddr : Addr) (decoded : Option Message) :
    Option (Message × Transaction) :=
  (incoming env s kaddr decoded).bind fun m => (answered env s kaddr m).map fun t => (m, t)

theorem completed_eq_some_iff {env : Env} {s : Server} {kaddr : Addr} {decoded : Option Message}
    {m : Message} {t : Transaction} :
    completed env s kaddr decoded = some (m, t) ↔
      incoming env s kaddr decoded = some m ∧ answered env s kaddr m = some t := by
  unfold completed
  simp only [Option.bind_eq_some_iff, Option.map_eq_some_iff, Prod.mk.injEq]
  constructor
  · rintro ⟨m', arrived, t', found, rfl, rfl⟩
    exact ⟨arrived, found⟩
  · rintro ⟨arrived, found⟩
    exact ⟨m, arrived, t, found, rfl, rfl⟩

theorem addNodeOf_keeps (env : Env) (kaddr : Addr) (id : Hash) (ro : Bool) :
    Act.Keeps (fun s : Server => (s.fixed, s.transactionManager, s.slices))
      (addNodeOf env kaddr id ro) := by
  refine Act.Keeps.ite (Act.Keeps.pure _) (Act.Keeps.bind (addNode_keeps env _) fun r => ?_)
  exact Act.Keeps.ite (Act.Keeps.bind (Act.Keeps.emit _) fun _ => Act.Keeps.pure _)
    (Act.Keeps.pure _)

/-- The server in which the handler of a response runs. -/
def received (env : Env) (s : Server) (kaddr : Addr) (m : Message) : Server :=
  ((addNodeOf env kaddr m.r.id m.ro).state s).popped m.t kaddr

/-- **A datagram that completes a transaction**: the sender is added, the transaction is popped, and
its handler runs. -/
theorem handlePacket_of_completed {env : Env} {s : Server} {kaddr : Addr} {decoded : Option Message}
    {m : Message} {t : Transaction} (complete : completed env s kaddr decoded = some (m, t)) :
    handlePacket env kaddr decoded s =
      (addNodeOf env kaddr m.r.id m.ro >>= fun _ =>
        popTransaction m.t kaddr >>= fun _ => onResponse env t kaddr m) s := by
  obtain ⟨arrived, found⟩ := completed_eq_some_iff.mp complete
  obtain ⟨enabled, welcome, rfl, named, unhooked⟩ := incoming_eq_some_iff.mp arrived
  obtain ⟨⟨isResponse, nonzero, unchanged⟩, pending⟩ := answered_eq_some_iff.mp found
  have notQuery : ¬ m.y = str "q" := by rw [isResponse]; decide
  have same : ((addNodeOf env kaddr m.r.id m.ro).state s).transactionManager =
      s.transactionManager :=
    congrArg (fun part => part.2.1) (addNodeOf_keeps env kaddr m.r.id m.ro s)
  unfold handlePacket
  rw [Act.get_bind_apply, if_neg (Bool.eq_false_iff.mp enabled),
    if_neg (Bool.eq_false_iff.mp welcome)]
  dsimp only
  rw [if_neg named, handleMessage, if_neg (Bool.eq_false_iff.mp unhooked), dispatch,
    if_neg notQuery, if_pos isResponse, if_neg (Bool.eq_false_iff.mp nonzero)]
  refine Act.bind_congr_at ?_
  have stays : ¬ (addNodeOf env kaddr m.r.id m.ro).value s = .nodeExistAndChanged := unchanged
  rw [if_neg stays]
  refine Act.bind_congr_at ?_
  have taken : (popTransaction m.t kaddr).value ((addNodeOf env kaddr m.r.id m.ro).state s) =
      some t := by
    rw [← pending, ← same]
    exact TransactionManager.popTransaction_fst _ m.t kaddr
  rw [taken]

theorem handlePacket_completed_state {env : Env} {s : Server} {kaddr : Addr}
    {decoded : Option Message} {m : Message} {t : Transaction}
    (complete : completed env s kaddr decoded = some (m, t)) :
    (handlePacket env kaddr decoded).state s =
      (onResponse env t kaddr m).state (received env s kaddr m) := by
  unfold Act.state
  rw [handlePacket_of_completed complete]
  rfl

theorem handlePacket_completed_sent_iff {env : Env} {s : Server} {kaddr : Addr}
    {decoded : Option Message} {m : Message} {t : Transaction}
    (complete : completed env s kaddr decoded = some (m, t)) (addr : Addr) (msg : Message) :
    .sent addr msg ∈ (handlePacket env kaddr decoded).effects s ↔
      .sent addr msg ∈ (onResponse env t kaddr m).effects (received env s kaddr m) := by
  have split : (handlePacket env kaddr decoded).effects s =
      (addNodeOf env kaddr m.r.id m.ro).effects s ++
        (onResponse env t kaddr m).effects (received env s kaddr m) := by
    unfold Act.effects
    rw [handlePacket_of_completed complete]
    rfl
  rw [split, List.mem_append]
  refine or_iff_right ?_
  unfold addNodeOf
  simp only [Act.ite_effects, Act.bind_effects, Act.pure_effects, addNode_effects, Act.emit_effects]
  split
  · exact List.not_mem_nil
  · split <;> simp

/-! ### The token manager -/

/-- An answered `get_peers` query hands out a token. -/
def messageTokenOps (env : Env) (s : Server) (kaddr : Addr) (m : Message) : List TokenManager.Op :=
  if IsQuery env s kaddr m ∧ m.q = queryMethodGetPeers then [.token kaddr env.now] else []

/-- The operations of an event on the token manager. -/
def tokenOps (s : Server) : Event → List TokenManager.Op
  | .packet env kaddr decoded =>
      match incoming env s kaddr decoded with
      | some m => messageTokenOps env s kaddr m
      | none => []
  | .updateToken token => [.updateToken token]
  | .clearTokens now => [.clear now tokenExpired]
  | _ => []

def tokenHistory (start : Server) (events : List Event) : List TokenManager.Op :=
  (trace step start events).flatMap fun point => point.1.tokenOps point.2

/-! ### The token-peer manager -/

/-- A response with a token to a pending `get_peers` query stores the token, **under the id of the
node that responds**. -/
def messagePeerOps (env : Env) (s : Server) (kaddr : Addr) (m : Message) :
    List TokenPeerManager.Op :=
  match answered env s kaddr m with
  | some t =>
      if t.onResponse = .onGetPeersResp ∧ m.r.token ≠ [] then [.set m.r.id kaddr m.r.token env.now]
      else []
  | none => []

/-- The operations of an event on the token-peer manager. -/
def peerOps (s : Server) : Event → List TokenPeerManager.Op
  | .packet env kaddr decoded =>
      match incoming env s kaddr decoded with
      | some m => messagePeerOps env s kaddr m
      | none => []
  | .peersTick now => [.sweep now peerInterval]
  | _ => []

def peerHistory (start : Server) (events : List Event) : List TokenPeerManager.Op :=
  (trace step start events).flatMap fun point => point.1.peerOps point.2

/-! ### Both managers after an event -/

theorem onResponse_fixed (env : Env) {t : Transaction} (wellFormed : WellFormed t) (a : Addr)
    (m : Message) (s : Server) :
    ((onResponse env t a m).state s).fixed =
      if t.onResponse = .onGetPeersResp ∧ m.r.token ≠ [] then
        { s with tokenPeerManager := s.tokenPeerManager.set m.r.id a m.r.token env.now }.fixed
      else s.fixed := by
  unfold onResponse
  cases handler : t.onResponse with
  | noopResponse => rfl
  | onPingResp => exact congrArg fixed (done_state t _ s)
  | onGetPeersResp =>
    have search := keeps_fixed fun _ elementary =>
      elementary.searchPeers env (wellFormed handler) (bringsOnly_any m)
    show ((searchPeers env t m).state ((storeToken env a m).state s)).fixed = _
    rw [search]
    unfold storeToken
    by_cases token : m.r.token = []
    · simp [token]
    · simp [token]
  | onFindNodeResp =>
    exact keeps_fixed (fun _ elementary => elementary.onFindNodeResp env t (bringsOnly_any m)) s

theorem managers_of_fixed {s s' : Server} (same : s.fixed = s'.fixed) :
    s.tokenManager = s'.tokenManager ∧ s.tokenPeerManager = s'.tokenPeerManager :=
  ⟨congrArg (fun part => part.2.2.2.1) same, congrArg (fun part => part.2.2.2.2) same⟩

theorem fixed_congr {s s' : Server} (same : s'.fixed = s.fixed) (f : TokenManager → TokenManager)
    (g : TokenPeerManager → TokenPeerManager) :
    { s' with tokenManager := f s'.tokenManager, tokenPeerManager := g s'.tokenPeerManager }.fixed =
      { s with tokenManager := f s.tokenManager,
               tokenPeerManager := g s.tokenPeerManager }.fixed := by
  simp only [fixed, Prod.mk.injEq] at same ⊢
  obtain ⟨sameConf, same4, same6, sameTokens, samePeers⟩ := same
  exact ⟨sameConf, same4, same6, congrArg f sameTokens, congrArg g samePeers⟩

theorem dispatch_query_fixed (env : Env) (kaddr : Addr) {m : Message} (isQuery : m.y = str "q")
    (s : Server) :
    ((dispatch env kaddr m).state s).fixed =
      if IsQuery env s kaddr m ∧ m.q = queryMethodGetPeers then
        { s with tokenManager := (s.tokenManager.token kaddr env.now).2 }.fixed
      else s.fixed := by
  unfold dispatch IsQuery addrChanged
  rw [if_pos isQuery]
  by_cases zero : m.a.id.isZero = true
  · rw [if_pos zero, if_neg fun both => Bool.false_ne_true (both.1.2.1.symm.trans zero)]
    rfl
  · have kept := addNodeOf_keeps env kaddr m.a.id m.ro s
    rw [if_neg zero, Act.bind_state, Act.get_bind_state, Act.ite_state]
    generalize (addNodeOf env kaddr m.a.id m.ro).state s = s' at kept ⊢
    have same : s'.fixed = s.fixed := congrArg Prod.fst kept
    have sameConf : s'.conf = s.conf := congrArg Prod.fst same
    rw [sameConf, handleQuery_state]
    by_cases answers : (addNodeOf env kaddr m.a.id m.ro).value s ≠ .nodeExistAndChanged ∧
        s.conf.readOnly = false
    · rw [if_pos answers]
      by_cases isGet : m.q = queryMethodGetPeers
      · rw [if_pos isGet, if_pos ⟨⟨isQuery, Bool.eq_false_iff.mpr zero, answers⟩, isGet⟩]
        exact fixed_congr same (fun tm => (tm.token kaddr env.now).2) id
      · rw [if_neg isGet, if_neg fun both => isGet both.2]
        exact same
    · rw [if_neg answers, if_neg fun both => answers both.1.2.2]
      exact same

theorem dispatch_response_fixed (env : Env) (kaddr : Addr) {m : Message}
    (isResponse : m.y = str "r")
    {s : Server} (sound : s.Sound) :
    ((dispatch env kaddr m).state s).fixed =
      match answered env s kaddr m with
      | some t =>
        if t.onResponse = .onGetPeersResp ∧ m.r.token ≠ [] then
          { s with tokenPeerManager :=
            s.tokenPeerManager.set m.r.id kaddr m.r.token env.now }.fixed
        else s.fixed
      | none => s.fixed := by
  have notQuery : ¬ m.y = str "q" := by rw [isResponse]; decide
  unfold dispatch answered addrChanged
  rw [if_neg notQuery, if_pos isResponse]
  by_cases zero : m.r.id.isZero = true
  · rw [if_pos zero, if_neg fun all => Bool.false_ne_true (all.2.1.symm.trans zero)]
    rfl
  · have kept := addNodeOf_keeps env kaddr m.r.id m.ro s
    rw [if_neg zero, Act.bind_state, Act.ite_state]
    generalize (addNodeOf env kaddr m.r.id m.ro).state s = s' at kept ⊢
    have same : s'.fixed = s.fixed := congrArg Prod.fst kept
    have sameTransactions : s'.transactionManager = s.transactionManager :=
      congrArg (fun part => part.2.1) kept
    by_cases changed : (addNodeOf env kaddr m.r.id m.ro).value s = .nodeExistAndChanged
    · rw [if_pos changed, if_neg fun all => all.2.2 changed]
      exact same
    · rw [if_neg changed, if_pos ⟨isResponse, Bool.eq_false_iff.mpr zero, changed⟩]
      have found := s.transactionManager.popTransaction_fst m.t kaddr
      show (Act.state (match (s'.transactionManager.popTransaction m.t kaddr).1 with
        | some t => onResponse env t kaddr m
        | none => pure ()) _).fixed = _
      rw [sameTransactions, found]
      cases pending : s.transactionManager.pending ⟨m.t, kaddr.string⟩ with
      | none => exact same
      | some t =>
        rw [onResponse_fixed env (sound _ t pending).2.2 kaddr m]
        dsimp only
        split
        · exact fixed_congr same id fun tpm => tpm.set m.r.id kaddr m.r.token env.now
        · exact same

theorem dispatch_other_fixed (env : Env) (kaddr : Addr) {m : Message} (notQuery : m.y ≠ str "q")
    (notResponse : m.y ≠ str "r") (s : Server) :
    ((dispatch env kaddr m).state s).fixed = s.fixed := by
  unfold dispatch
  rw [if_neg notQuery, if_neg notResponse, Act.ite_state]
  split
  · show (Act.state (match (s.transactionManager.popTransaction m.t kaddr).1 with
      | some t => onError t m.e.code m.e.reason
      | none => pure ()) _).fixed = _
    cases (s.transactionManager.popTransaction m.t kaddr).1 with
    | none => rfl
    | some t =>
      show ((done t _).state _).fixed = _
      rw [done_state]
      rfl
  · rfl

theorem dispatch_managers (env : Env) (kaddr : Addr) (m : Message) {s : Server} (sound : s.Sound) :
    ((dispatch env kaddr m).state s).tokenManager =
        run TokenManager.step s.tokenManager (messageTokenOps env s kaddr m) ∧
      ((dispatch env kaddr m).state s).tokenPeerManager =
        run TokenPeerManager.step s.tokenPeerManager (messagePeerOps env s kaddr m) := by
  have noPeers : m.y ≠ str "r" → messagePeerOps env s kaddr m = [] := by
    intro other
    unfold messagePeerOps answered
    rw [if_neg fun all => other all.1]
  have noTokens : m.y ≠ str "q" → messageTokenOps env s kaddr m = [] := fun other =>
    if_neg fun all => other all.1.1
  by_cases isQuery : m.y = str "q"
  · have notResponse : m.y ≠ str "r" := by rw [isQuery]; decide
    obtain ⟨tokens, peers⟩ := managers_of_fixed
      ((dispatch_query_fixed env kaddr isQuery s).trans (apply_ite fixed _ _ _).symm)
    rw [tokens, peers, noPeers notResponse]
    unfold messageTokenOps
    split
    · exact ⟨rfl, rfl⟩
    · exact ⟨rfl, rfl⟩
  · rw [noTokens isQuery]
    by_cases isResponse : m.y = str "r"
    · have result := dispatch_response_fixed env kaddr isResponse sound
      unfold messagePeerOps
      cases found : answered env s kaddr m with
      | none =>
        rw [found] at result
        exact managers_of_fixed result
      | some t =>
        rw [found] at result
        dsimp only at result ⊢
        by_cases stores : t.onResponse = .onGetPeersResp ∧ m.r.token ≠ []
        · rw [if_pos stores] at result ⊢
          exact managers_of_fixed result
        · rw [if_neg stores] at result ⊢
          exact managers_of_fixed result
    · rw [noPeers isResponse]
      exact managers_of_fixed (dispatch_other_fixed env kaddr isQuery isResponse s)

theorem step_managers {s : Server} (sound : s.Sound) (event : Event) :
    (s.step event).tokenManager = run TokenManager.step s.tokenManager (s.tokenOps event) ∧
      (s.step event).tokenPeerManager =
        run TokenPeerManager.step s.tokenPeerManager (s.peerOps event) := by
  have untouched : ∀ {α : Type} {act : ServerM α},
      (∀ P, Elementary (fun _ => True) P → Act.Preserves P act) → ∀ s, ((do let _ ← act : ServerM Unit).state s).tokenManager = s.tokenManager ∧
        ((do let _ ← act : ServerM Unit).state s).tokenPeerManager = s.tokenPeerManager :=
    fun preserves s => managers_of_fixed (keeps_fixed preserves s)
  cases event with
  | packet env kaddr decoded =>
    simp only [step, perform, tokenOps, peerOps, handlePacket_state]
    cases incoming env s kaddr decoded with
    | none => exact ⟨rfl, rfl⟩
    | some m => exact dispatch_managers env kaddr m sound
  | addNode env node => exact untouched (fun _ elementary => elementary.addNode env trivial) s
  | ping env addr callback =>
    exact untouched (fun _ elementary => elementary.ping env addr callback) s
  | getPeers env infohash callback =>
    exact untouched (fun _ elementary => elementary.getPeers env infohash callback) s
  | announcePeer env infohash port impliedPort =>
    exact untouched (fun _ elementary => elementary.announcePeer env infohash port impliedPort) s
  | findNode env addr target =>
    exact untouched (fun _ elementary => elementary.findNode env addr target) s
  | bootstrap env addrs =>
    exact untouched (fun _ elementary => elementary.bootstrap env addrs) s
  | table4Tick env =>
    exact untouched (fun _ elementary => elementary.pingAll env _)
      { s with routingTable4 := (s.routingTable4.checkAllBuckets env.now).1 }
  | table6Tick env =>
    exact untouched (fun _ elementary => elementary.pingAll env _)
      { s with routingTable6 := (s.routingTable6.checkAllBuckets env.now).1 }
  | updateToken token | clearTokens now | peersTick now => exact ⟨rfl, rfl⟩
  | transactionsTick env =>
    exact untouched (fun _ _ => Act.Preserves.forEach (fun t => Elementary.done t _) _)
      { s with transactionManager :=
        (s.transactionManager.sweep env.sweepOrder env.now s.conf.respTimeout).2 }

section Run

variable (config : Config) (setup : Setup) (events : List Event)

theorem run_tokenManager :
    (run step (newServer config setup) events).tokenManager =
      run TokenManager.step (TokenManager.newTokenManager setup.token)
        (tokenHistory (newServer config setup) events) :=
  component_run step tokenManager TokenManager.step tokenOps
    (fun s event => (sound_stable _).step (fun _ sound => sound) s event event.allowed_any)
    (fun _ event sound => (step_managers sound event).1) (newServer_sound config setup) events

theorem run_tokenPeerManager :
    (run step (newServer config setup) events).tokenPeerManager =
      run TokenPeerManager.step TokenPeerManager.newTokenPeerManager
        (peerHistory (newServer config setup) events) :=
  component_run step tokenPeerManager TokenPeerManager.step peerOps
    (fun s event => (sound_stable _).step (fun _ sound => sound) s event event.allowed_any)
    (fun _ event sound => (step_managers sound event).2) (newServer_sound config setup) events

end Run

end Server

end GoBt.Dht
