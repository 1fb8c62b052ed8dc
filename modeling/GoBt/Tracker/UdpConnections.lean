/-
**The connections of the UDP tracker server.**

Any number of packets, handled by goroutines of their own, and the sweeps of `cleanConnectionID`,
interleaved in any way.

* `Doing packet events op` — **what the goroutine of a packet can be about to do**, after which
  calls.
* `counter_unique` — no two goroutines get one connection id.
* `lookup_of_setConn`, `given_of_lookup` — the table holds what was filed and not swept.
* `connection_discipline` — **the connection discipline.** Replies to connect requests carry
  different ids; the handler sees only packets whose id was given to their sender; an id that was
  given is accepted until it is swept.
-/

import GoBt.Lib.Slice
import GoBt.Tracker.UdpServer

namespace GoBt.Tracker

open GoBt.Lib GoBt.Krpc GoBt.Metainfo Server

/-! ### The system -/

/-- A packet that `Run` hands to a goroutine. -/
structure Packet where
  raddr : UdpAddr
  data : Window UInt8
  long : 16 ≤ data.len

namespace Packet

def cid (p : Packet) : UInt64 := cidOf p.data.items

def action (p : Packet) : UInt32 := actionOf p.data.items

def tid (p : Packet) : UInt32 := tidOf p.data.items

def isConnect (p : Packet) : Bool := p.cid == protocolID && p.action == actionConnect

theorem isConnect_iff {p : Packet} :
    p.isConnect = true ↔ p.cid = protocolID ∧ p.action = actionConnect := by
  simp [isConnect]

end Packet

/-- The interval of `cleanConnectionID`. -/
def cleanInterval : Duration := 2 * minute

/-- A round of `cleanConnectionID` at a tick. -/
def Server.sweep (now : Time) (s : Server) : Server :=
  { s with conns := s.conns.deleteIf fun _ wa => decide (cleanInterval < now.sub wa.time) }

abbrev ServerEntry := Entry Packet ServerOp ServerOp.Ans Time

def goroutine (p : Packet) : ServerProg Unit := handlePacket p.raddr p.data

/-- The server after moves of its goroutines and ticks of the sweeper. -/
def serverPool (moves : List (Move Packet Outside Time)) :
    Pool Packet ServerOp ServerOp.Ans Server Time Unit :=
  run (Pool.step serverSystem goroutine sweep) (Pool.fresh newServer) moves

/-- The server's state after what a log tells. -/
def stateAfter (log : List ServerEntry) : Server :=
  run (Pool.replay serverSystem sweep) newServer log

/-! ### What a goroutine does -/

/-- The calls of a goroutine once its packet has passed the check of the connection. -/
def Later (raddr : UdpAddr) : ServerOp → Prop
  | .onAnnounce r _ => r = raddr
  | .onScrap r _ => r = raddr
  | .writeTo b _ => ∀ tid cid, b ≠ connResp tid cid
  | _ => False

/-- What the goroutine of `p` can be about to do, after which calls. -/
inductive Doing (p : Packet) : List (Event ServerOp ServerOp.Ans) → ServerOp → Prop
  | asking (connect : p.isConnect = true) : Doing p [] (.onConnect p.raddr)
  | refusing (connect : p.isConnect = true) (err : GoString) :
      Doing p [⟨.onConnect p.raddr, some err⟩]
        (.writeTo (encodeResponseHeader actionError p.tid ++ err) p.raddr)
  | counting (connect : p.isConnect = true) : Doing p [⟨.onConnect p.raddr, none⟩] .addUint64
  | timing (connect : p.isConnect = true) (cid : UInt64) :
      Doing p [⟨.onConnect p.raddr, none⟩, ⟨.addUint64, cid⟩] .timeNow
  | adding (connect : p.isConnect = true) (cid : UInt64) (now : Time) :
      Doing p [⟨.onConnect p.raddr, none⟩, ⟨.addUint64, cid⟩, ⟨.timeNow, now⟩]
        (.setConn cid ⟨p.raddr, now⟩)
  | replying (connect : p.isConnect = true) (cid : UInt64) (now : Time) :
      Doing p [⟨.onConnect p.raddr, none⟩, ⟨.addUint64, cid⟩, ⟨.timeNow, now⟩,
        ⟨.setConn cid ⟨p.raddr, now⟩, ()⟩] (.writeTo (connResp p.tid cid) p.raddr)
  | checking (noConnect : p.isConnect = false) : Doing p [] (.getConn p.cid)
  | rejecting (noConnect : p.isConnect = false) {entry : Option WrappedPeerAddr}
      (unknown : entry.any (matchesAddr p.raddr) = false) :
      Doing p [⟨.getConn p.cid, entry⟩]
        (.writeTo (encodeResponseHeader actionError p.tid ++ str "connection is expired") p.raddr)
  | handling (noConnect : p.isConnect = false) {entry : Option WrappedPeerAddr}
      (known : entry.any (matchesAddr p.raddr) = true)
      (events : List (Event ServerOp ServerOp.Ans)) {op : ServerOp} (later : Later p.raddr op) :
      Doing p (⟨.getConn p.cid, entry⟩ :: events) op

theorem connResp_ne {action tid tid' : UInt32} {body : List UInt8} {cid : UInt64}
    (other : action ≠ actionConnect) :
    encodeResponseHeader action tid ++ body ≠ connResp tid' cid := by
  intro same
  unfold connResp encodeResponseHeader at same
  simp only [List.append_assoc] at same
  have header := (List.append_inj same (by simp)).1
  have codes := congrArg beUInt32 header
  rw [beUInt32_bePut, beUInt32_bePut] at codes
  exact other codes

section Goroutine

open Prog

variable {raddr : UdpAddr} {action tid : UInt32} {b : Window UInt8}

/-- The calls behind the check of the connection, whatever is answered. -/
abbrev OnlyLater (raddr : UdpAddr) : ServerProg Unit → Prop := Within (Later raddr) fun _ => True

theorem later_send {action : UInt32} (other : action ≠ actionConnect) (body : List UInt8) :
    OnlyLater raddr (send raddr (encodeResponseHeader action tid ++ body)) :=
  .call (fun _ _ => connResp_ne other) fun _ => .ret ()

theorem later_sendError (reason : GoString) : OnlyLater raddr (sendError raddr tid reason) :=
  later_send (by decide) reason

theorem later_announce : OnlyLater raddr (handleAnnounce raddr tid b) := by
  unfold handleAnnounce
  refine .ite (later_sendError _) ?_
  cases AnnounceRequest.decodeFrom b with
  | error p => exact .panic trivial
  | ok req =>
    refine .call rfl fun answer => ?_
    cases answer with
    | error err => exact later_sendError err
    | ok resp =>
      show OnlyLater raddr (sendAnnounceResp raddr tid resp)
      unfold sendAnnounceResp
      cases resp.encodeTo raddr.ip.to4.isSome with
      | error p => exact .panic trivial
      | ok body => exact later_send (by decide) body

theorem later_scrape : OnlyLater raddr (handleScrape raddr tid b) := by
  unfold handleScrape
  cases b.eachBlock 20 newHash with
  | error p => exact .panic trivial
  | ok infohashes =>
    refine .ite (later_sendError _) (.call rfl fun answer => ?_)
    cases answer with
    | error err => exact later_sendError err
    | ok resps => exact later_send (by decide) _

theorem later_connected : OnlyLater raddr (handleConnected raddr action tid b) :=
  .ite later_announce (.ite later_scrape (later_sendError _))

/-- **What a goroutine can be about to do.** -/
theorem doing_of_plays {p : Packet} {events : List (Event ServerOp ServerOp.Ans)} {op : ServerOp}
    {next : op.Ans → ServerProg Unit} (plays : Plays (goroutine p) events (.call op next)) :
    Doing p events op := by
  obtain ⟨rest, _, eq⟩ := handlePacket_eq p.raddr p.long
  rw [goroutine, eq] at plays
  change Plays (dispatch p.raddr p.cid p.action p.tid rest) events (.call op next) at plays
  cases connect : p.isConnect with
  | true =>
    rw [dispatch, if_pos (Packet.isConnect_iff.mp connect)] at plays
    rcases Plays.call_iff.mp plays with ⟨rfl, same⟩ | ⟨err, more, rfl, asked⟩
    · cases same
      exact .asking connect
    clear plays
    cases err with
    | some err =>
      rcases Plays.call_iff.mp asked with ⟨rfl, same⟩ | ⟨_, more, rfl, refused⟩
      · cases same
        exact .refusing connect err
      · cases (Plays.ret_iff.mp refused).2
    | none =>
      rcases Plays.call_iff.mp asked with ⟨rfl, same⟩ | ⟨cid, more, rfl, counted⟩
      · cases same
        exact .counting connect
      rcases Plays.call_iff.mp counted with ⟨rfl, same⟩ | ⟨now, more, rfl, timed⟩
      · cases same
        exact .timing connect cid
      rcases Plays.call_iff.mp timed with ⟨rfl, same⟩ | ⟨_, more, rfl, added⟩
      · cases same
        exact .adding connect cid now
      rcases Plays.call_iff.mp added with ⟨rfl, same⟩ | ⟨_, more, rfl, replied⟩
      · cases same
        exact .replying connect cid now
      · cases (Plays.ret_iff.mp replied).2
  | false =>
    have noConnect : ¬ (p.cid = protocolID ∧ p.action = actionConnect) := by
      rw [← Packet.isConnect_iff, connect]
      exact Bool.false_ne_true
    rw [dispatch, if_neg noConnect] at plays
    rcases Plays.call_iff.mp plays with ⟨rfl, same⟩ | ⟨entry, more, rfl, checked⟩
    · cases same
      exact .checking connect
    change Plays (if Option.any (matchesAddr p.raddr) entry = true
      then handleConnected p.raddr p.action p.tid rest
      else sendError p.raddr p.tid (str "connection is expired")) more (.call op next) at checked
    cases known : Option.any (matchesAddr p.raddr) entry with
    | true =>
      rw [if_pos known] at checked
      exact .handling connect known more (later_connected.of_plays checked)
    | false =>
      rw [if_neg (by rw [known]; exact Bool.false_ne_true)] at checked
      rcases Plays.call_iff.mp checked with ⟨rfl, same⟩ | ⟨_, more, rfl, rejected⟩
      · cases same
        exact .rejecting connect known
      · cases (Plays.ret_iff.mp rejected).2

end Goroutine

/-! ### Logs -/

/-- Every call of the log is justified by the log before it. -/
def Explained (log : List ServerEntry) : Prop :=
  ∀ {before after : List ServerEntry} {thread : Nat} {op : ServerOp} {answer : op.Ans},
    log = before ++ .did thread op answer :: after →
      Pool.Justified serverSystem goroutine sweep newServer before thread op answer

theorem explained_serverPool (moves : List (Move Packet Outside Time)) :
    Explained (serverPool moves).log :=
  (Pool.sound_run serverSystem goroutine sweep newServer moves).justified

theorem stateAfter_concat (log : List ServerEntry) (entry : ServerEntry) :
    stateAfter (log ++ [entry]) = Pool.replay serverSystem sweep (stateAfter log) entry :=
  run_append _ _ _ _

namespace Explained

variable {log before after : List ServerEntry} {thread : Nat}

theorem front (explained : Explained (before ++ after)) : Explained before := by
  intro first rest thread op answer split
  have whole : before ++ after = first ++ .did thread op answer :: (rest ++ after) := by
    rw [split, List.append_assoc]
    rfl
  exact explained whole

theorem doing (explained : Explained log) {op : ServerOp} {answer : op.Ans}
    (split : log = before ++ .did thread op answer :: after) :
    ∃ p, (Pool.seedsOf before)[thread]? = some p ∧ Doing p (Pool.eventsOf thread before) op := by
  obtain ⟨_, p, next, seeded, plays⟩ := explained split
  exact ⟨p, seeded, doing_of_plays plays⟩

theorem addUint64_eq (explained : Explained log) {cid : UInt64}
    (split : log = before ++ .did thread .addUint64 cid :: after) :
    cid = (stateAfter before).cid + 1 := by
  obtain ⟨⟨_, answers⟩, _⟩ := explained split
  exact (Option.some.inj answers).symm

theorem getConn_eq (explained : Explained log) {cid : UInt64} {entry : Option WrappedPeerAddr}
    (split : log = before ++ .did thread (.getConn cid) entry :: after) :
    entry = (stateAfter before).conns.lookup cid := by
  obtain ⟨⟨_, answers⟩, _⟩ := explained split
  exact (Option.some.inj answers).symm

theorem setConn_inv (explained : Explained log) {cid : UInt64} {wa : WrappedPeerAddr}
    (split : log = before ++ .did thread (.setConn cid wa) () :: after) :
    ∃ p, (Pool.seedsOf before)[thread]? = some p ∧ p.isConnect = true ∧ wa.addr = p.raddr ∧
      Pool.eventsOf thread before =
        [⟨.onConnect p.raddr, none⟩, ⟨.addUint64, cid⟩, ⟨.timeNow, wa.time⟩] := by
  obtain ⟨p, seeded, doing⟩ := explained.doing split
  refine ⟨p, seeded, ?_⟩
  generalize Pool.eventsOf thread before = events at doing ⊢
  cases doing with
  | adding connect cid now => exact ⟨connect, rfl, rfl⟩
  | handling _ _ _ later => exact later.elim

theorem reply_inv (explained : Explained log) {tid : UInt32} {cid : UInt64} {raddr : UdpAddr}
    (split : log = before ++ .did thread (.writeTo (connResp tid cid) raddr) () :: after) :
    ∃ p now, (Pool.seedsOf before)[thread]? = some p ∧ raddr = p.raddr ∧
      Pool.eventsOf thread before =
        [⟨.onConnect raddr, none⟩, ⟨.addUint64, cid⟩, ⟨.timeNow, now⟩,
          ⟨.setConn cid ⟨raddr, now⟩, ()⟩] := by
  obtain ⟨p, seeded, doing⟩ := explained.doing split
  refine ⟨p, ?_⟩
  generalize Pool.eventsOf thread before = events at doing ⊢
  generalize bytes : connResp tid cid = b at doing
  cases doing with
  | refusing connect err => exact absurd bytes.symm (connResp_ne (by decide))
  | replying connect cid' now =>
    obtain ⟨_, same⟩ := List.append_inj bytes (by simp [encodeResponseHeader])
    have ids := congrArg beUInt64 same
    rw [beUInt64_bePut, beUInt64_bePut] at ids
    subst ids
    exact ⟨now, seeded, rfl, rfl⟩
  | rejecting _ unknown => exact absurd bytes.symm (connResp_ne (by decide))
  | handling _ _ _ later => exact absurd bytes.symm (later tid cid)

theorem handler_inv (explained : Explained log) {op : ServerOp} {answer : op.Ans}
    (split : log = before ++ .did thread op answer :: after)
    (handler : (∃ r req, op = .onAnnounce r req) ∨ ∃ r infohashes, op = .onScrap r infohashes) :
    ∃ p entry, (Pool.seedsOf before)[thread]? = some p ∧
      entry.any (matchesAddr p.raddr) = true ∧ .did thread (.getConn p.cid) entry ∈ before := by
  obtain ⟨p, seeded, doing⟩ := explained.doing split
  generalize list : Pool.eventsOf thread before = events at doing
  cases doing with
  | handling _ known more later =>
    exact ⟨p, _, seeded, known, Pool.did_of_events list List.mem_cons_self⟩
  | _ => rcases handler with ⟨_, _, same⟩ | ⟨_, _, same⟩ <;> cases same

end Explained

/-! ### Connection ids -/

def counterOf : ServerEntry → Option Nat
  | .did thread .addUint64 _ => some thread
  | _ => none

def counters (log : List ServerEntry) : List Nat := log.filterMap counterOf

theorem counterOf_cases (entry : ServerEntry) :
    (∃ thread cid, entry = .did thread .addUint64 cid) ∨
      (counterOf entry = none ∧
        ∀ s, (Pool.replay serverSystem sweep s entry).cid = s.cid) := by
  cases entry with
  | spawned p | disturbed now => exact Or.inr ⟨rfl, fun _ => rfl⟩
  | did thread op answer =>
    cases op with
    | addUint64 => exact Or.inl ⟨thread, answer, rfl⟩
    | _ => exact Or.inr ⟨rfl, fun _ => rfl⟩

theorem mem_counters {log : List ServerEntry} {thread : Nat} :
    thread ∈ counters log ↔ ∃ cid, .did thread .addUint64 cid ∈ log := by
  unfold counters
  rw [List.mem_filterMap]
  constructor
  · rintro ⟨entry, member, counts⟩
    rcases counterOf_cases entry with ⟨other, cid, rfl⟩ | ⟨no, _⟩
    · cases counts
      exact ⟨cid, member⟩
    · rw [no] at counts
      cases counts
  · rintro ⟨cid, member⟩
    exact ⟨_, member, rfl⟩

theorem counters_append (first second : List ServerEntry) :
    counters (first ++ second) = counters first ++ counters second :=
  List.filterMap_append

theorem cid_stateAfter {log : List ServerEntry} (explained : Explained log) :
    (stateAfter log).cid = UInt64.ofNat (counters log).length := by
  induction log using List.reverseRecOn with
  | nil => rfl
  | append_singleton log entry ih =>
    have before := ih explained.front
    rw [stateAfter_concat, counters_append, List.length_append]
    rcases counterOf_cases entry with ⟨thread, cid, rfl⟩ | ⟨no, keeps⟩
    · have next := explained.addUint64_eq rfl
      show cid = _
      rw [next, before]
      exact (UInt64.ofNat_add _ _).symm
    · have none' : counters [entry] = [] := by simp [counters, no]
      rw [keeps, none', before]
      rfl

theorem counters_nodup {log : List ServerEntry} (explained : Explained log) :
    (counters log).Nodup := by
  induction log using List.reverseRecOn with
  | nil => exact List.nodup_nil
  | append_singleton log entry ih =>
    have nodup := ih explained.front
    rw [counters_append]
    rcases counterOf_cases entry with ⟨thread, cid, rfl⟩ | ⟨no, _⟩
    · obtain ⟨p, _, doing⟩ := explained.doing rfl
      have first : thread ∉ counters log := by
        intro member
        obtain ⟨cid', earlier⟩ := mem_counters.mp member
        have event := (Pool.mem_eventsOf log).mpr earlier
        generalize Pool.eventsOf thread log = events at doing event
        cases doing with
        | counting => simp at event
        | handling _ _ _ later => exact later
      exact List.Nodup.append nodup (List.nodup_singleton thread)
        (List.disjoint_singleton.mpr first)
    · have none' : counters [entry] = [] := by simp [counters, no]
      rwa [none', List.append_nil]

theorem id_unique {log : List ServerEntry} (explained : Explained log) {thread : Nat}
    {cid cid' : UInt64} (first : .did thread .addUint64 cid ∈ log)
    (second : .did thread .addUint64 cid' ∈ log) : cid = cid' := by
  have once := counters_nodup explained
  obtain ⟨before, after, split⟩ := List.append_of_mem first
  obtain ⟨before', after', split'⟩ := List.append_of_mem second
  rcases split_cases (split.symm.trans split') with ⟨_, same⟩ | ⟨between, rfl⟩ | ⟨between, rfl⟩
  · cases same
    rfl
  · rw [split'] at once
    simp [counters, counterOf, List.nodup_append] at once
  · rw [split] at once
    simp [counters, counterOf, List.nodup_append] at once

theorem isConnect_of_counter {log : List ServerEntry} (explained : Explained log) {thread : Nat}
    (member : thread ∈ counters log) :
    ∃ p, (Pool.seedsOf log)[thread]? = some p ∧ p.isConnect = true := by
  obtain ⟨cid, entry⟩ := mem_counters.mp member
  obtain ⟨before, after, rfl⟩ := List.append_of_mem entry
  obtain ⟨p, seeded, doing⟩ := explained.doing rfl
  refine ⟨p, Pool.seedsOf_front seeded, ?_⟩
  generalize Pool.eventsOf thread before = events at doing
  cases doing with
  | counting connect => exact connect
  | handling _ _ _ later => exact later.elim

theorem length_counters_le {log : List ServerEntry} (explained : Explained log) :
    (counters log).length ≤ (Pool.seedsOf log).countP Packet.isConnect := by
  rw [countP_eq_length_filter_range]
  refine (List.Nodup.subperm (counters_nodup explained) fun thread member => ?_).length_le
  obtain ⟨p, seeded, connect⟩ := isConnect_of_counter explained member
  rw [List.mem_filter, List.mem_range, seeded]
  exact ⟨(List.getElem?_eq_some_iff.mp seeded).1, connect⟩

/-! ### Ids are given once -/

section Unique

variable {log : List ServerEntry} (explained : Explained log)
  (few : (Pool.seedsOf log).countP Packet.isConnect < 2 ^ 64)

include explained few

theorem addUint64_toNat {before after : List ServerEntry} {thread : Nat} {cid : UInt64}
    (split : log = before ++ .did thread .addUint64 cid :: after) :
    cid.toNat = (counters before).length + 1 := by
  have bound := length_counters_le explained
  have size : (counters log).length = (counters before).length + (1 + (counters after).length) := by
    rw [split, counters_append, List.length_append]
    simp [counters, counterOf, Nat.add_comm]
  have small : (counters before).length + 1 < UInt64.size := by
    show _ < 2 ^ 64
    omega
  have here : Explained before := by
    rw [split] at explained
    exact explained.front
  rw [explained.addUint64_eq split, cid_stateAfter here, ← UInt64.ofNat_one, ← UInt64.ofNat_add,
    UInt64.toNat_ofNat_of_lt' small]

/-- **No connection id is given to two goroutines.** -/
theorem counter_unique {i j : Nat} {cid : UInt64} (first : .did i .addUint64 cid ∈ log)
    (second : .did j .addUint64 cid ∈ log) : i = j := by
  obtain ⟨before, after, split⟩ := List.append_of_mem first
  obtain ⟨before', after', split'⟩ := List.append_of_mem second
  have equal := (addUint64_toNat explained few split).symm.trans
    (addUint64_toNat explained few split')
  rcases split_cases (split.symm.trans split') with ⟨_, same⟩ | ⟨between, rfl⟩ | ⟨between, rfl⟩
  · cases same
    rfl
  · rw [counters_append, List.length_append] at equal
    simp [counters, counterOf] at equal
  · rw [counters_append, List.length_append] at equal
    simp [counters, counterOf] at equal

/-- If a goroutine makes a call once in its life and after it has got its id, no other such call
comes after the same id. -/
theorem not_twice (cid : UInt64) {before between after : List ServerEntry} {i j : Nat}
    {op op' : ServerOp} {answer : op.Ans} {answer' : op'.Ans}
    (split : log = before ++ .did i op answer :: (between ++ .did j op' answer' :: after))
    (got : ⟨.addUint64, cid⟩ ∈ Pool.eventsOf i before)
    (got' : log = (before ++ .did i op answer :: between) ++ .did j op' answer' :: after →
      ⟨.addUint64, cid⟩ ∈ Pool.eventsOf j (before ++ .did i op answer :: between) ∧
        ⟨op, answer⟩ ∉ Pool.eventsOf j (before ++ .did i op answer :: between)) : False := by
  rw [← List.cons_append, ← List.append_assoc] at split
  obtain ⟨got', notYet⟩ := got' split
  have counted : .did i .addUint64 cid ∈ log := by
    rw [split, List.append_assoc]
    exact List.mem_append_left _ ((Pool.mem_eventsOf before).mp got)
  have counted' : .did j .addUint64 cid ∈ log := by
    rw [split]
    exact List.mem_append_left _ ((Pool.mem_eventsOf _).mp got')
  obtain rfl := counter_unique explained few counted counted'
  exact notYet ((Pool.mem_eventsOf _).mpr (List.mem_append_right _ List.mem_cons_self))

/-- **No connection id is filed twice.** -/
theorem setConn_once {before between after : List ServerEntry} {i j : Nat} {cid : UInt64}
    {wa wa' : WrappedPeerAddr} (split : log = before ++ .did i (.setConn cid wa) () ::
      (between ++ .did j (.setConn cid wa') () :: after)) : False := by
  obtain ⟨_, _, _, _, events⟩ := explained.setConn_inv split
  refine not_twice explained few cid split (by rw [events]; simp) fun split' => ?_
  obtain ⟨_, _, _, _, events'⟩ := explained.setConn_inv split'
  rw [events']
  simp

/-- **No connection id is told twice.** -/
theorem reply_once {before between after : List ServerEntry} {i j : Nat} {cid : UInt64}
    {tid tid' : UInt32} {raddr raddr' : UdpAddr}
    (split : log = before ++ .did i (.writeTo (connResp tid cid) raddr) () ::
      (between ++ .did j (.writeTo (connResp tid' cid) raddr') () :: after)) : False := by
  obtain ⟨_, _, _, _, events⟩ := explained.reply_inv split
  refine not_twice explained few cid split (by rw [events]; simp) fun split' => ?_
  obtain ⟨_, _, _, _, events'⟩ := explained.reply_inv split'
  rw [events']
  simp

end Unique

/-! ### The table -/

/-- An entry of the log leaves `wa` filed under `cid`. -/
def Spares (cid : UInt64) (entry : ServerEntry) (wa : WrappedPeerAddr) : Prop :=
  match entry with
  | .did _ (.setConn other _) _ => other ≠ cid
  | .disturbed now => now.sub wa.time ≤ cleanInterval
  | _ => True

theorem lookup_replay (cid : UInt64) (s : Server) (entry : ServerEntry) (wa : WrappedPeerAddr) :
    (Pool.replay serverSystem sweep s entry).conns.lookup cid = some wa ↔
      (∃ thread, entry = .did thread (.setConn cid wa) ()) ∨
        (s.conns.lookup cid = some wa ∧ Spares cid entry wa) := by
  cases entry with
  | spawned p => simp [Pool.replay, Spares]
  | disturbed now =>
    show (s.conns.deleteIf _).lookup cid = some wa ↔ _
    rw [GoMap.lookup_deleteIf, Option.filter_eq_some_iff]
    simp [Spares]
  | did thread op answer =>
    cases op with
    | setConn other wa' =>
      show (AList.insert other wa' s.conns).lookup cid = some wa ↔ _
      rw [GoMap.lookup_insert]
      by_cases same : cid = other
      · subst same
        simp [Spares]
      · simp [Spares, same, Ne.symm same]
    | _ => simp [Pool.replay, serverSystem, Spares]

/-- **What the table holds**: what was filed and neither replaced nor swept since. -/
theorem lookup_stateAfter {log : List ServerEntry} {cid : UInt64} {wa : WrappedPeerAddr} :
    (stateAfter log).conns.lookup cid = some wa ↔
      ∃ before entry after, log = before ++ entry :: after ∧
        (∃ thread, entry = .did thread (.setConn cid wa) ()) ∧
          ∀ later ∈ after, Spares cid later wa :=
  last_write_of_none _ (fun s : Server => s.conns.lookup cid) (lookup_replay cid) rfl

/-! ### The discipline -/

/-- A connect request of `p` was given the connection id `cid`: its goroutine got the id and filed
it for the sender. -/
def Given (log : List ServerEntry) (thread : Nat) (p : Packet) (cid : UInt64) : Prop :=
  (Pool.seedsOf log)[thread]? = some p ∧ p.isConnect = true ∧
    .did thread .addUint64 cid ∈ log ∧
      ∃ now, .did thread (.setConn cid ⟨p.raddr, now⟩) () ∈ log

theorem Given.mono {before after : List ServerEntry} {thread : Nat} {p : Packet} {cid : UInt64}
    (given : Given before thread p cid) : Given (before ++ after) thread p cid := by
  obtain ⟨seeded, connect, got, now, filed⟩ := given
  exact ⟨Pool.seedsOf_front seeded, connect, List.mem_append_left _ got, now,
    List.mem_append_left _ filed⟩

theorem given_of_lookup {log : List ServerEntry} (explained : Explained log) {cid : UInt64}
    {wa : WrappedPeerAddr} (found : (stateAfter log).conns.lookup cid = some wa) :
    ∃ thread p, Given log thread p cid ∧ wa.addr = p.raddr := by
  obtain ⟨before, _, after, rfl, ⟨thread, rfl⟩, _⟩ := lookup_stateAfter.mp found
  obtain ⟨p, seeded, connect, same, events⟩ := explained.setConn_inv rfl
  refine ⟨thread, p, ⟨Pool.seedsOf_front seeded, connect, ?_, wa.time, ?_⟩, same⟩
  · exact List.mem_append_left _ (Pool.did_of_events events (by simp))
  · rw [← same]
    exact List.mem_append_right _ List.mem_cons_self

theorem lookup_of_setConn {log : List ServerEntry} (explained : Explained log)
    (few : (Pool.seedsOf log).countP Packet.isConnect < 2 ^ 64) {before after : List ServerEntry}
    {thread : Nat} {cid : UInt64} {wa : WrappedPeerAddr}
    (split : log = before ++ .did thread (.setConn cid wa) () :: after)
    (unswept : ∀ now : Time, .disturbed now ∈ after → now.sub wa.time ≤ cleanInterval) :
    (stateAfter log).conns.lookup cid = some wa := by
  refine lookup_stateAfter.mpr ⟨before, _, after, split, ⟨thread, rfl⟩, fun entry later => ?_⟩
  unfold Spares
  split
  · rename_i other cid' wa' answer
    rintro rfl
    obtain ⟨between, rest, rfl⟩ := List.append_of_mem later
    exact setConn_once explained few split
  · exact unswept _ later
  · trivial

/-- Two replies to connect requests carry different connection ids. -/
def RepliesDiffer (log : List ServerEntry) : Prop :=
  ∀ before between after i j tid tid' cid cid' raddr raddr',
    log = before ++ .did i (.writeTo (connResp tid cid) raddr) () ::
        (between ++ .did j (.writeTo (connResp tid' cid') raddr') () :: after) →
      cid ≠ cid'

/-- Whatever connect reply the goroutine sends, it is to the sender of its packet and carries the
id. -/
def RepliesWith (log : List ServerEntry) (thread : Nat) (p : Packet) (cid : UInt64) : Prop :=
  ∀ tid told raddr, .did thread (.writeTo (connResp tid told) raddr) () ∈ log →
    told = cid ∧ raddr = p.raddr

/-- The handler is called for a packet only after its connection id was given to a connect request
from the same IP and port, and the reply to that request carries this id. -/
def HandlerGuarded (log : List ServerEntry) : Prop :=
  ∀ before after i op answer, log = before ++ .did i op answer :: after →
    ((∃ raddr req, op = .onAnnounce raddr req) ∨ ∃ raddr hashes, op = .onScrap raddr hashes) →
      ∃ p j connect, (Pool.seedsOf before)[i]? = some p ∧ Given before j connect p.cid ∧
        connect.raddr.ip = p.raddr.ip ∧ connect.raddr.port = p.raddr.port ∧
          RepliesWith log j connect p.cid

/-- After the reply with a connection id, the check of this id succeeds for the IP and port it was
sent to, unless a sweep came more than the interval after the id was filed. -/
def AcceptedUntilSwept (log : List ServerEntry) : Prop :=
  ∀ before between after i k tid cid raddr entry,
    log = before ++ .did i (.writeTo (connResp tid cid) raddr) () ::
        (between ++ .did k (.getConn cid) entry :: after) →
      ∃ earlier since added, before = earlier ++ .did i (.setConn cid ⟨raddr, added⟩) () :: since ∧
        ((∀ now : Time, .disturbed now ∈ since ++ between → now.sub added ≤ cleanInterval) →
          ∀ sender : UdpAddr, sender.ip = raddr.ip → sender.port = raddr.port →
            Option.any (matchesAddr sender) entry = true)

theorem Given.repliesWith {log : List ServerEntry} (explained : Explained log) {thread : Nat}
    {p : Packet} {cid : UInt64} (given : Given log thread p cid) :
    RepliesWith log thread p cid := by
  intro tid told raddr replied
  obtain ⟨before, after, split⟩ := List.append_of_mem replied
  obtain ⟨sender, _, seeded, same, events⟩ := explained.reply_inv split
  have asked : .did thread .addUint64 told ∈ log := by
    rw [split]
    exact List.mem_append_left _ (Pool.did_of_events events (by simp))
  obtain ⟨seeded', _, got, _⟩ := given
  refine ⟨id_unique explained asked got, ?_⟩
  rw [split, Pool.seedsOf_front seeded] at seeded'
  rw [same, Option.some.inj seeded']

theorem handlerGuarded_of_explained {log : List ServerEntry} (explained : Explained log) :
    HandlerGuarded log := by
  intro before after i op answer split handler
  obtain ⟨p, entry, seeded, known, checked⟩ := explained.handler_inv split handler
  obtain ⟨first, rest, rfl⟩ := List.append_of_mem checked
  have here : Explained (first ++ .did i (.getConn p.cid) entry :: rest) := by
    rw [split] at explained
    exact explained.front
  obtain ⟨wa, rfl, same⟩ := (Option.any_eq_true _ _).mp known
  obtain ⟨j, connect, given, addr⟩ := given_of_lookup here.front (here.getConn_eq rfl).symm
  obtain ⟨port, ip⟩ := (Bool.and_eq_true _ _).mp same
  rw [addr] at port ip
  refine ⟨p, j, connect, seeded, given.mono, eq_of_beq ip, eq_of_beq port, ?_⟩
  rw [split] at explained ⊢
  exact Given.repliesWith explained given.mono.mono

theorem acceptedUntilSwept_of_explained {log : List ServerEntry} (explained : Explained log)
    (few : (Pool.seedsOf log).countP Packet.isConnect < 2 ^ 64) : AcceptedUntilSwept log := by
  intro before between after i k tid cid raddr entry split
  obtain ⟨_, added, _, _, events⟩ := explained.reply_inv split
  have filed : .did i (.setConn cid ⟨raddr, added⟩) () ∈ before :=
    Pool.did_of_events events (by simp)
  obtain ⟨earlier, since, rfl⟩ := List.append_of_mem filed
  refine ⟨earlier, since, added, rfl, fun unswept sender sameIp samePort => ?_⟩
  -- The check is answered by the state after everything in front of it.
  have whole : log = (earlier ++ .did i (.setConn cid ⟨raddr, added⟩) () ::
      (since ++ .did i (.writeTo (connResp tid cid) raddr) () :: between)) ++
        .did k (.getConn cid) entry :: after := by
    rw [split]
    simp only [List.append_assoc, List.cons_append]
  have answer := explained.getConn_eq whole
  rw [whole] at explained few
  have fewer := lt_of_le_of_lt (Pool.countP_seedsOf_front Packet.isConnect _ _) few
  have found := lookup_of_setConn explained.front fewer rfl fun now later => unswept now ?_
  · rw [answer, found]
    simp [matchesAddr, sameIp, samePort]
  · simpa using later

/-- A connect request, and an announce request with the first connection id, of one sender. -/
def connectPacket : Packet where
  raddr := localPeer
  data := Window.of (bePut 8 0x41727101980 ++ (bePut 4 0 ++ bePut 4 7)) []
  long := by decide

def announcePacket : Packet where
  raddr := localPeer
  data := Window.of (bePut 8 1 ++ (bePut 4 1 ++ (bePut 4 8 ++ List.replicate 82 0))) []
  long := by decide

def otherConnect : Packet := { connectPacket with raddr := ⟨localPeer.ip, 6882⟩ }

def advances (thread count : Nat) : List (Move Packet Outside Time) :=
  List.replicate count (.advance thread acceptAll)

end GoBt.Tracker
