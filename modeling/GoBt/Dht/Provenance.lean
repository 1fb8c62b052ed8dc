/-
**Where the values of `get_peers` replies come from.**

* `Stored` — a datagram of the run made the token-peer manager file its sender, and no tick has
  expired it since.
* `stored_of_entry` — everything that is filed was stored so.
* **`values_from_searches`** — the values of a reply are nodes that answered a search of the server
  and whose id is the infohash. A peer that was announced to the server is never among them for
  that.
-/

import GoBt.Dht.Families

namespace GoBt.Dht.Server

open GoBt.Lib GoBt.Metainfo GoBt.Krpc

/-- In the run, a datagram of the peer completed a `get_peers` query of the server; it brought the id
and the token of the peer; and no tick since then found the peer too old. -/
def Stored (start : Server) (events : List Event) (peer : Peer) : Prop :=
  ∃ before env decoded after m t, events = before ++ .packet env peer.addr decoded :: after ∧
    completed env (run step start before) peer.addr decoded = some (m, t) ∧
    t.onResponse = .onGetPeersResp ∧ m.r.token ≠ [] ∧ peer = ⟨m.r.id, peer.addr, m.r.token, env.now⟩ ∧
    ∀ now, .peersTick now ∈ after → now.sub env.now ≤ peerInterval

/-- **Only a response with a token to a pending `get_peers` query files a peer.** -/
theorem stored_of_files {start : Server} {events : List Event} {event : Event}
    {op : TokenPeerManager.Op} (member : op ∈ (run step start events).peerOps event) {id : Hash}
    {key : GoString} {peer : Peer} (files : op.Files id key peer) :
    peer.id = id ∧ Stored start (events ++ [event]) peer := by
  cases event with
  | packet env kaddr decoded =>
    cases arrived : incoming env (run step start events) kaddr decoded with
    | none => simp [peerOps, arrived] at member
    | some m =>
      cases found : answered env (run step start events) kaddr m with
      | none => simp [peerOps, arrived, messagePeerOps, found] at member
      | some t =>
        simp only [peerOps, arrived, messagePeerOps, found] at member
        split at member
        · rename_i stores
          obtain rfl := List.mem_singleton.mp member
          obtain ⟨rfl, _, rfl⟩ := files
          exact ⟨rfl, events, env, decoded, [], m, t, rfl,
            completed_eq_some_iff.mpr ⟨arrived, found⟩, stores.1, stores.2, rfl, by simp⟩
        · cases member
  | peersTick now =>
    obtain rfl := List.mem_singleton.mp member
    cases files
  | _ => cases member

/-- **What is filed was stored**, by induction on the run from its end. -/
theorem stored_of_entry {start : Server} (sound : start.Sound)
    (empty : start.tokenPeerManager = TokenPeerManager.newTokenPeerManager) (events : List Event)
    {id : Hash} {key : GoString} {peer : Peer}
    (filed : (run step start events).tokenPeerManager.entry id key = some peer) :
    peer.id = id ∧ Stored start events peer := by
  induction events using List.reverseRecOn with
  | nil =>
    rw [run_nil, empty] at filed
    cases filed
  | append_singleton events event ih =>
    have soundNow := (sound_stable _).run (fun _ sound => sound) sound events fun event _ =>
      event.allowed_any
    rw [run_append, run_cons, run_nil, (step_managers soundNow event).2] at filed
    rcases (last_write_iff TokenPeerManager.step (fun tpm => tpm.entry id key)
      fun tpm op peer => TokenPeerManager.step_entry_iff tpm op id key peer).mp filed with
      ⟨_, op, _, split, files, _⟩ | ⟨old, spared⟩
    · exact stored_of_files (by rw [split]; simp) files
    · obtain ⟨named, before, env, decoded, after, m, t, rfl, complete, search, token, same, fresh⟩ :=
        ih old
      refine ⟨named, before, env, decoded, after ++ [event], m, t, by simp, complete, search, token,
        same, fun now member => ?_⟩
      rcases List.mem_append.mp member with earlier | last
      · exact fresh now earlier
      · obtain rfl := List.mem_singleton.mp last
        have kept : now.sub peer.time ≤ peerInterval := spared _ (List.mem_singleton.mpr rfl)
        rwa [same] at kept

/-- **The values of a reply come from searches.** In every run of a server with its own peer manager,
a value in the reply to a `get_peers` query is the text of the address of a node that calls itself by
the infohash, that has answered a search of the server with a token, and that has not expired since.
Announces bring no values. -/
theorem values_from_searches (config : Config) (plain : config.customPeers = false) (setup : Setup)
    (events : List Event) (env : Env) (kaddr : Addr) (m : Message) (isQuery : m.y = str "q")
    (isGet : m.q = queryMethodGetPeers) (addr : Addr) (msg : Message)
    (sent : .sent addr msg ∈ (perform (.packet env kaddr (some m))).effects
      (run step (newServer config setup) events)) :
    ∀ value ∈ msg.r.values, ∃ peer, Stored (newServer config setup) events peer ∧
      peer.id = m.a.infoHash ∧ value = peer.addr.string := by
  have conf := run_conf config setup events
  have filed := @stored_of_entry _ (newServer_sound config setup) rfl events
  generalize run step (newServer config setup) events = s at sent conf filed
  obtain ⟨_, sent⟩ := (handlePacket_query_sent_iff env kaddr isQuery s addr msg).mp sent
  -- adding the sender leaves the configuration and the managers as they are
  have kept := congrArg Prod.fst (addNodeOf_keeps env kaddr m.a.id m.ro s)
  generalize (addNodeOf env kaddr m.a.id m.ro).state s = s' at sent kept
  have own : s'.conf.customPeers = false := by
    rw [show s'.conf = s.conf from congrArg Prod.fst kept, conf]
    exact plain
  obtain ⟨_, rfl⟩ := (handleQuery_getPeers_sent_iff env kaddr isGet s' addr msg).mp sent
  intro value member
  replace member : value ∈ (getPeersResult env s' kaddr m.a).values := member
  rw [getPeersResult_values, valuesFor_eq own] at member
  obtain ⟨peer, chosen, rfl⟩ := List.mem_map.mp member
  obtain ⟨key, entry⟩ := mem_peersAt_iff.mp (mem_selected chosen).1
  rw [(managers_of_fixed kept).2] at entry
  obtain ⟨named, stored⟩ := filed entry
  exact ⟨peer, stored, named, rfl⟩

/-- The theorem at the server that has found the node `10.0.0.1:6881`. -/
theorem values_from_searches_found :
    ∃ peer, Stored secretServer (searchEvents (Hash.fill 3)) peer ∧ peer.id = Hash.fill 3 ∧
      str "10.0.0.1:6881" = peer.addr.string := by
  refine values_from_searches {} rfl { token := str "secret" } (searchEvents (Hash.fill 3)) {}
    ⟨[10, 0, 0, 9], 9⟩ (peersMsg []) rfl rfl ⟨[10, 0, 0, 9], 9⟩
    (filedServer.replyMsg (str "aa")
      (getPeersResult {} filedServer ⟨[10, 0, 0, 9], 9⟩ (peersMsg []).a)) ?_ _ ?_
  · decide +kernel
  · decide +kernel

end GoBt.Dht.Server
