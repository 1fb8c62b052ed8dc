/-
**Requests and answers, interleaved.**

`request` sends its query first and files the transaction afterwards; the answer is handled by
another thread. Here the two halves of a request are steps of their own, and so are the handling of
a message up to the completion of its transaction and the sweeps, in any interleaving.

* `Delivery.step` — one step, on the transaction manager of the server.
* **`server_takes_steps`** — what the server does to its transactions is such steps.
* `Waiting`, `Held`, `Absent` — where a transaction is: sent and not filed, pending, or neither. The
  step lemmas say how each step moves it.
* **`completed_iff_registered_before`** — the first answer to a query, handled in time, completes
  the transaction exactly when it is one for which `handleMessage` looks for a transaction, and the
  transaction was filed before the answer was handled and has not been replaced since.
-/

import GoBt.Dht.Histories

namespace GoBt.Dht.Delivery

open GoBt.Lib GoBt.Metainfo GoBt.Krpc

/-- How a transaction ends. -/
inductive Outcome
  | onResponse (addr : Addr) (m : Message)
  | onError (code : Int) (reason : GoString)
  | onTimeout
  deriving DecidableEq

/-- `sent` are the transactions whose query is sent and which are not yet filed; `log` are the
handlers that ran. -/
structure State where
  tm : TransactionManager
  sent : List Transaction
  log : List (Transaction × Outcome)

def State.initial : State := ⟨TransactionManager.newTransactionManager, [], []⟩

/-- A step of some thread. -/
inductive Action
  /-- `request`, first half: take an id and send the query. -/
  | send (t : Transaction)
  /-- `request`, when sending fails. -/
  | failSend
  /-- `request`, second half: file the transaction. -/
  | register (serial : Nat)
  /-- The receive path; `changed` says that the id of the sender is known under another address. -/
  | handle (addr : Addr) (m : Message) (changed : Bool)
  /-- A tick of the transaction manager. -/
  | sweep (order : GoMap.RangeOrder Transaction) (now : Time) (interval : Duration)

/-- The transaction under the id that the manager gives next. -/
def identify (tm : TransactionManager) (t : Transaction) : Transaction :=
  { t with id := tm.getTransactionID.1, serial := tm.getTransactionID.2.tid }

/-- The handler that a message runs if a transaction is found for it; `none` if `handleMessage` does
not look for one. -/
def outcomeOf (addr : Addr) (m : Message) (changed : Bool) : Option Outcome :=
  if m.y = str "r" then
    if m.r.id.isZero = false ∧ changed = false then some (.onResponse addr m) else none
  else if m.y = str "e" then some (.onError m.e.code m.e.reason)
  else none

theorem mem_of_outcomeOf {addr : Addr} {m : Message} {changed : Bool} {outcome : Outcome}
    (looked : outcomeOf addr m changed = some outcome) :
    outcome ∈ [.onResponse addr m, .onError m.e.code m.e.reason] := by
  unfold outcomeOf at looked
  grind

def step (s : State) : Action → State
  | .send t => { s with tm := s.tm.getTransactionID.2, sent := s.sent ++ [identify s.tm t] }
  | .failSend => { s with tm := s.tm.getTransactionID.2 }
  | .register serial =>
      match s.sent.find? fun t => t.serial == serial with
      | some t =>
          { s with tm := s.tm.addTransaction t, sent := s.sent.filter fun t => t.serial != serial }
      | none => s
  | .handle addr m changed =>
      match outcomeOf addr m changed with
      | some outcome =>
          let popped := s.tm.popTransaction m.t addr
          { s with
            tm := popped.2
            log := s.log ++ popped.1.toList.map fun t => (t, outcome) }
      | none => s
  | .sweep order now interval =>
      let swept := s.tm.sweep order now interval
      { s with
        tm := swept.2
        log := s.log ++ swept.1.map fun t => (t, .onTimeout) }

/-! ### What a step does -/

def LooksUp (key : TransactionKey) : Action → Prop
  | .handle addr m changed => (outcomeOf addr m changed).isSome = true ∧ ⟨m.t, addr.string⟩ = key
  | _ => False

def Expires (t : Transaction) : Action → Prop
  | .sweep _ now interval => TransactionManager.expired now interval t = true
  | _ => False

/-- The action files another transaction under the key of `t`. -/
def Replaces (s : State) (t : Transaction) : Action → Prop
  | .register serial => ∃ other, (s.sent.find? fun t => t.serial == serial) = some other ∧
      other.serial ≠ t.serial ∧ other.key = t.key
  | _ => False

theorem step_register_some {s : State} {serial : Nat} {t : Transaction}
    (found : (s.sent.find? fun t => t.serial == serial) = some t) :
    step s (.register serial) =
      { s with
        tm := s.tm.addTransaction t
        sent := s.sent.filter fun t => t.serial != serial } := by
  simp only [step, found]

theorem step_register_none {s : State} {serial : Nat}
    (missing : (s.sent.find? fun t => t.serial == serial) = none) :
    step s (.register serial) = s := by
  simp only [step, missing]

theorem step_handle_some {s : State} {addr : Addr} {m : Message} {changed : Bool}
    {outcome : Outcome} (looked : outcomeOf addr m changed = some outcome) :
    step s (.handle addr m changed) =
      { s with
        tm := (s.tm.popTransaction m.t addr).2
        log := s.log ++ (s.tm.pending ⟨m.t, addr.string⟩).toList.map fun t => (t, outcome) } := by
  simp only [step, looked, TransactionManager.popTransaction_fst]

theorem step_handle_log (s : State) {addr : Addr} {m : Message} {changed : Bool} {outcome : Outcome}
    (looked : outcomeOf addr m changed = some outcome) :
    (step s (.handle addr m changed)).log =
      s.log ++ (s.tm.pending ⟨m.t, addr.string⟩).toList.map fun t => (t, outcome) := by
  rw [step_handle_some looked]

theorem step_handle_none {s : State} {addr : Addr} {m : Message} {changed : Bool}
    (ignored : outcomeOf addr m changed = none) : step s (.handle addr m changed) = s := by
  simp only [step, ignored]

/-- What a step does, case by case: a transaction is found to be filed or not, and a message is
looked up or not. -/
inductive StepsTo (s : State) : Action → State → Prop
  | send (t : Transaction) : StepsTo s (.send t)
      { s with tm := s.tm.getTransactionID.2, sent := s.sent ++ [identify s.tm t] }
  | failSend : StepsTo s .failSend { s with tm := s.tm.getTransactionID.2 }
  | filed {serial : Nat} {t : Transaction}
      (found : (s.sent.find? fun t => t.serial == serial) = some t) :
      StepsTo s (.register serial)
        { s with
          tm := s.tm.addTransaction t
          sent := s.sent.filter fun t => t.serial != serial }
  | missing {serial : Nat} (notSent : (s.sent.find? fun t => t.serial == serial) = none) :
      StepsTo s (.register serial) s
  | answered {addr : Addr} {m : Message} {changed : Bool} {outcome : Outcome}
      (looked : outcomeOf addr m changed = some outcome) :
      StepsTo s (.handle addr m changed)
        { s with
          tm := (s.tm.popTransaction m.t addr).2
          log := s.log ++ (s.tm.pending ⟨m.t, addr.string⟩).toList.map fun t => (t, outcome) }
  | ignored {addr : Addr} {m : Message} {changed : Bool}
      (notLooked : outcomeOf addr m changed = none) : StepsTo s (.handle addr m changed) s
  | swept (order : GoMap.RangeOrder Transaction) (now : Time) (interval : Duration) :
      StepsTo s (.sweep order now interval)
        { s with
          tm := (s.tm.sweep order now interval).2
          log := s.log ++ (s.tm.sweep order now interval).1.map fun t => (t, .onTimeout) }

theorem stepsTo_step (s : State) (a : Action) : StepsTo s a (step s a) := by
  cases a with
  | send t => exact .send t
  | failSend => exact .failSend
  | register serial =>
    cases found : s.sent.find? fun t => t.serial == serial with
    | none =>
      rw [step_register_none found]
      exact .missing found
    | some t =>
      rw [step_register_some found]
      exact .filed found
  | handle addr m changed =>
    cases looked : outcomeOf addr m changed with
    | none =>
      rw [step_handle_none looked]
      exact .ignored looked
    | some outcome =>
      rw [step_handle_some looked]
      exact .answered looked
  | sweep order now interval => exact .swept order now interval

/-- **Where pending transactions come from**: they were pending, or the step files them. -/
theorem pending_step {s : State} {a : Action} {key : TransactionKey} {t : Transaction}
    (pending : (step s a).tm.pending key = some t) :
    s.tm.pending key = some t ∨ (t ∈ s.sent ∧ a = .register t.serial ∧ key = t.key) := by
  have steps := stepsTo_step s a
  generalize step s a = next at steps pending
  cases steps with
  | send _ | failSend | missing _ | ignored _ => exact Or.inl pending
  | filed found =>
    rw [TransactionManager.pending_addTransaction] at pending
    split at pending
    · obtain rfl := Option.some.inj pending
      have same := List.find?_some found
      exact Or.inr ⟨List.mem_of_find?_eq_some found, by rw [beq_iff_eq.mp same], ‹_›⟩
    · exact Or.inl pending
  | answered looked =>
    rw [TransactionManager.pending_popTransaction] at pending
    split at pending
    · cases pending
    · exact Or.inl pending
  | swept order now interval =>
    rw [TransactionManager.pending_sweep] at pending
    exact Or.inl (Option.filter_eq_some_iff.mp pending).1

theorem pending_step_of_spared {s : State} {a : Action} {t : Transaction}
    (pending : s.tm.pending t.key = some t) (notLooked : ¬ LooksUp t.key a)
    (notExpired : ¬ Expires t a) (notReplaced : ¬ Replaces s t a)
    (unsent : ∀ other ∈ s.sent, other.serial ≠ t.serial) :
    (step s a).tm.pending t.key = some t := by
  have steps := stepsTo_step s a
  generalize step s a = next at steps ⊢
  cases steps with
  | send _ | failSend | missing _ | ignored _ => exact pending
  | filed found =>
    have inside := List.mem_of_find?_eq_some found
    rw [TransactionManager.pending_addTransaction, if_neg]
    · exact pending
    · exact fun sameKey => notReplaced ⟨_, found, unsent _ inside, sameKey.symm⟩
  | answered looked =>
    rw [TransactionManager.pending_popTransaction, if_neg]
    · exact pending
    · exact fun sameKey => notLooked ⟨by rw [looked]; rfl, sameKey.symm⟩
  | swept order now interval =>
    rw [TransactionManager.pending_sweep]
    refine Option.filter_eq_some_iff.mpr ⟨pending, ?_⟩
    simpa [Expires] using notExpired

theorem mem_sent_step {s : State} {a : Action} {t : Transaction} (member : t ∈ (step s a).sent) :
    (t ∈ s.sent ∧ a ≠ .register t.serial) ∨
      (t.serial = s.tm.tid + 1 ∧ (step s a).tm.tid = s.tm.tid + 1) := by
  have steps := stepsTo_step s a
  generalize step s a = next at steps member ⊢
  cases steps with
  | send new =>
    rcases List.mem_append.mp member with old | fresh
    · exact Or.inl ⟨old, nofun⟩
    · rw [List.mem_singleton.mp fresh]
      exact Or.inr ⟨rfl, rfl⟩
  | failSend | answered _ | ignored _ | swept _ _ _ => exact Or.inl ⟨member, nofun⟩
  | missing notSent =>
    refine Or.inl ⟨member, fun same => ?_⟩
    have other := List.find?_eq_none.mp notSent t member
    rw [Action.register.inj same] at other
    exact other (beq_self_eq_true _)
  | filed found =>
    obtain ⟨old, other⟩ := List.mem_filter.mp member
    refine Or.inl ⟨old, fun same => ?_⟩
    rw [Action.register.inj same] at other
    simp at other

theorem mem_sent_step_of_ne {s : State} {a : Action} {t : Transaction} (member : t ∈ s.sent)
    (other : a ≠ .register t.serial) : t ∈ (step s a).sent := by
  have steps := stepsTo_step s a
  generalize step s a = next at steps ⊢
  cases steps with
  | send _ => exact List.mem_append_left _ member
  | failSend | missing _ | answered _ | ignored _ | swept _ _ _ => exact member
  | filed found =>
    refine List.mem_filter.mpr ⟨member, ?_⟩
    simpa using fun same => other (by rw [same])

theorem tid_step (s : State) (a : Action) : s.tm.tid ≤ (step s a).tm.tid := by
  have steps := stepsTo_step s a
  generalize step s a = next at steps ⊢
  cases steps with
  | send _ | failSend => exact Nat.le_succ _
  | filed _ | missing _ | ignored _ | swept _ _ _ => exact le_rfl
  | answered _ => exact (TransactionManager.popTransaction_tid _ _ _).ge

/-- **Which handlers run**: those of a pending transaction that is looked up or expires. -/
theorem mem_log_step {s : State} {a : Action} {entry : Transaction × Outcome}
    (member : entry ∈ (step s a).log) :
    entry ∈ s.log ∨ ∃ key, s.tm.pending key = some entry.1 ∧
      (LooksUp key a ∨ (Expires entry.1 a ∧ entry.2 = .onTimeout)) := by
  have steps := stepsTo_step s a
  generalize step s a = next at steps member
  cases steps with
  | send _ | failSend | filed _ | missing _ | ignored _ => exact Or.inl member
  | answered looked =>
    rcases List.mem_append.mp member with old | new
    · exact Or.inl old
    · obtain ⟨t, pending, rfl⟩ := List.mem_map.mp new
      exact Or.inr ⟨_, Option.mem_toList.mp pending, Or.inl ⟨by rw [looked]; rfl, rfl⟩⟩
  | swept order now interval =>
    rcases List.mem_append.mp member with old | new
    · exact Or.inl old
    · obtain ⟨t, swept, rfl⟩ := List.mem_map.mp new
      obtain ⟨⟨key, pending⟩, expired⟩ := TransactionManager.mem_sweep_iff.mp swept
      exact Or.inr ⟨key, pending, Or.inr ⟨expired, rfl⟩⟩

theorem log_subset_step (s : State) (a : Action) : s.log ⊆ (step s a).log := by
  have steps := stepsTo_step s a
  generalize step s a = next at steps ⊢
  cases steps with
  | send _ | failSend | filed _ | missing _ | ignored _ => exact List.Subset.refl _
  | answered _ | swept _ _ _ => exact List.subset_append_left _ _

theorem log_step_of_looksUp {s : State} {a : Action} {key : TransactionKey} {t : Transaction}
    (pending : s.tm.pending key = some t) (looksUp : LooksUp key a) :
    ∃ outcome, (t, outcome) ∈ (step s a).log := by
  cases a with
  | handle addr m changed =>
    obtain ⟨looked, rfl⟩ := looksUp
    obtain ⟨outcome, looked⟩ := Option.isSome_iff_exists.mp looked
    refine ⟨outcome, ?_⟩
    rw [step_handle_some looked, pending]
    exact List.mem_append_right _ List.mem_cons_self
  | send _ | failSend | register _ | sweep _ _ _ => exact looksUp.elim

theorem log_step_of_expires {s : State} {a : Action} {key : TransactionKey} {t : Transaction}
    (pending : s.tm.pending key = some t) (expires : Expires t a) :
    (t, .onTimeout) ∈ (step s a).log := by
  cases a with
  | sweep order now interval =>
    have swept : t ∈ (s.tm.sweep order now interval).1 :=
      TransactionManager.mem_sweep_iff.mpr ⟨⟨key, pending⟩, expires⟩
    exact List.mem_append_right _ (List.mem_map_of_mem swept)
  | send _ | failSend | register _ | handle _ _ _ => exact expires.elim

/-! ### The steps of the server -/

section Server

variable (env : Env) (s : Server)

/-- The transaction manager of the server, before the steps of one event. -/
def ofServer : State := ⟨s.transactionManager, [], []⟩

def signed (t : Transaction) : Transaction := { t with arg := { t.arg with id := s.conf.id } }

theorem request_eq_steps (t : Transaction) (noId : t.id = []) :
    ((Server.request env t).state s).transactionManager =
      if s.isDisabled t.addr = true then s.transactionManager
      else if Server.sendOutcome env t.addr (s.queryOf t) = none then
        (run step (ofServer s) [.send (signed s t), .register (s.transactionManager.tid + 1)]).tm
      else (step (ofServer s) .failSend).tm := by
  have identified : s.identify t =
      (identify s.transactionManager (signed s t), (s.identify t).2) := by
    unfold Server.identify
    rw [if_pos noId]
    rfl
  have counted : (s.identify t).2.transactionManager =
      s.transactionManager.getTransactionID.2 := by
    unfold Server.identify
    rw [if_pos noId]
  have found : ((step (ofServer s) (.send (signed s t))).sent.find? fun other =>
      other.serial == s.transactionManager.tid + 1) =
        some (identify s.transactionManager (signed s t)) :=
    List.find?_cons_of_pos (beq_self_eq_true _)
  rw [Server.request_state]
  split
  · rfl
  · split
    · rw [run_cons, run_cons, run_nil, step_register_some found]
      show (s.identify t).2.transactionManager.addTransaction (s.identify t).1 = _
      rw [counted, identified]
      rfl
    · exact counted

def runHandler (entry : Transaction × Outcome) : ServerM Unit :=
  match entry.2 with
  | .onResponse addr m => Server.onResponse env entry.1 addr m
  | .onError code reason => Server.onError entry.1 code reason
  | .onTimeout => Server.onTimeout entry.1

/-- The handlers that a step logs, run by the server with the transaction manager the step
leaves. -/
def runStep (a : Action) : Server :=
  (Act.forEach (runHandler env) (step (ofServer s) a).log).state
    { s with transactionManager := (step (ofServer s) a).tm }

theorem transactionsTick_eq_sweep :
    Server.step s (.transactionsTick env) =
      runStep env s (.sweep env.sweepOrder env.now s.conf.respTimeout) := by
  have handlers : ∀ swept : List Transaction, ∀ s : Server,
      (Act.forEach Server.onTimeout swept).state s =
        (Act.forEach (runHandler env) (swept.map fun t => (t, .onTimeout))).state s := by
    intro swept
    induction swept with
    | nil => exact fun _ => rfl
    | cons t rest ih => exact fun s => ih _
  exact handlers _ _

/-- The server after a look at the sender of a response, and whether the id of the sender is known
under another address. -/
def noteSender (kaddr : Addr) (m : Message) : Server × Bool :=
  if m.y = str "r" ∧ m.r.id.isZero = false then
    ((Server.addNodeOf env kaddr m.r.id m.ro).state s,
      decide ((Server.addNodeOf env kaddr m.r.id m.ro).value s = .nodeExistAndChanged))
  else (s, false)

theorem popTransaction_bind_state (tid : GoString) (addr : Addr)
    (next : Option Transaction → ServerM Unit) :
    (Server.popTransaction tid addr >>= next).state s =
      (next (s.transactionManager.pending ⟨tid, addr.string⟩)).state
        { s with transactionManager := (s.transactionManager.popTransaction tid addr).2 } := by
  rw [← TransactionManager.popTransaction_fst]
  rfl

theorem runStep_handle_none {kaddr : Addr} {m : Message} {changed : Bool}
    (ignored : outcomeOf kaddr m changed = none) :
    runStep env s (.handle kaddr m changed) = s := by
  unfold runStep
  rw [step_handle_none ignored]
  rfl

theorem runStep_handle_some {kaddr : Addr} {m : Message} {changed : Bool} {outcome : Outcome}
    (looked : outcomeOf kaddr m changed = some outcome) :
    runStep env s (.handle kaddr m changed) =
      (Server.popTransaction m.t kaddr >>= fun found =>
        match found with
        | some t => runHandler env (t, outcome)
        | none => pure ()).state s := by
  unfold runStep
  rw [step_handle_some looked, popTransaction_bind_state]
  show (Act.forEach _ ([] ++ (s.transactionManager.pending _).toList.map _)).state _ = _
  cases s.transactionManager.pending ⟨m.t, kaddr.string⟩ with
  | none => rfl
  | some t => rfl

theorem dispatch_eq_handle (kaddr : Addr) (m : Message) (answer : m.y ≠ str "q") :
    (Server.dispatch env kaddr m).state s =
      runStep env (noteSender env s kaddr m).1 (.handle kaddr m (noteSender env s kaddr m).2) := by
  unfold Server.dispatch noteSender
  rw [if_neg answer]
  by_cases response : m.y = str "r"
  · rw [if_pos response]
    by_cases zero : m.r.id.isZero = true
    · have ignored : outcomeOf kaddr m false = none := by simp [outcomeOf, response, zero]
      rw [if_pos zero, if_neg (by simp [zero]), runStep_handle_none env _ ignored]
      rfl
    · have nonzero : m.r.id.isZero = false := eq_false_of_ne_true zero
      rw [if_neg zero, if_pos ⟨response, nonzero⟩, Act.bind_state, Act.ite_state]
      by_cases known : (Server.addNodeOf env kaddr m.r.id m.ro).value s = .nodeExistAndChanged
      · have ignored : outcomeOf kaddr m true = none := by simp [outcomeOf, response]
        rw [if_pos known, decide_eq_true known, runStep_handle_none env _ ignored]
        rfl
      · have looked : outcomeOf kaddr m false = some (.onResponse kaddr m) := by
          simp [outcomeOf, response, nonzero]
        rw [if_neg known, decide_eq_false known, runStep_handle_some env _ looked]
        rfl
  · rw [if_neg response]
    have unnoted : ¬ (m.y = str "r" ∧ m.r.id.isZero = false) := fun both => response both.1
    rw [if_neg unnoted]
    by_cases error : m.y = str "e"
    · have looked : outcomeOf kaddr m false = some (.onError m.e.code m.e.reason) := by
        unfold outcomeOf
        rw [if_neg response, if_pos error]
      rw [if_pos error, runStep_handle_some env _ looked]
      rfl
    · have ignored : outcomeOf kaddr m false = none := by
        unfold outcomeOf
        rw [if_neg response, if_neg error]
      rw [if_neg error, runStep_handle_none env _ ignored]
      rfl

theorem dispatch_query_keeps (kaddr : Addr) {m : Message} (query : m.y = str "q") :
    ((Server.dispatch env kaddr m).state s).transactionManager = s.transactionManager := by
  have answers : Act.Keeps Server.transactionManager (Server.handleQuery env kaddr m) := by
    intro s
    rw [Server.handleQuery_state]
    split <;> rfl
  have adds : Act.Keeps Server.transactionManager (Server.addNodeOf env kaddr m.a.id m.ro) :=
    fun s => congrArg (fun kept => kept.2.1) (Server.addNodeOf_keeps env kaddr m.a.id m.ro s)
  have keeps : Act.Keeps Server.transactionManager (Server.dispatch env kaddr m) := by
    unfold Server.dispatch
    rw [if_pos query]
    exact .ite (.pure _) (.bind adds fun _ => .bind .get fun _ => .ite answers (.pure _))
  exact keeps s

/-- **The server takes these steps.** A request that no other thread interrupts is its two halves, or
a failed attempt; an answer is a step of the receive path, after a look at its sender; the tick of
the transaction manager is a sweep; and the handlers that the steps log are the ones that run. A
query leaves the transactions alone. -/
theorem server_takes_steps :
    (∀ t : Transaction, t.id = [] → ((Server.request env t).state s).transactionManager =
      if s.isDisabled t.addr = true then s.transactionManager
      else if Server.sendOutcome env t.addr (s.queryOf t) = none then
        (run step (ofServer s) [.send (signed s t), .register (s.transactionManager.tid + 1)]).tm
      else (step (ofServer s) .failSend).tm) ∧
    (∀ kaddr m, m.y ≠ str "q" → (Server.dispatch env kaddr m).state s =
      runStep env (noteSender env s kaddr m).1 (.handle kaddr m (noteSender env s kaddr m).2)) ∧
    (∀ kaddr m, m.y = str "q" →
      ((Server.dispatch env kaddr m).state s).transactionManager = s.transactionManager) ∧
    Server.step s (.transactionsTick env) =
      runStep env s (.sweep env.sweepOrder env.now s.conf.respTimeout) :=
  ⟨request_eq_steps env s, dispatch_eq_handle env s, fun kaddr _ => dispatch_query_keeps env s kaddr,
    transactionsTick_eq_sweep env s⟩

end Server

/-! ### Where a transaction is -/

/-- No transaction has a serial that is not taken, and every one is pending under its own key. -/
structure Fresh (s : State) : Prop where
  sent : ∀ t ∈ s.sent, t.serial ≤ s.tm.tid
  pending : ∀ key t, s.tm.pending key = some t → t.serial ≤ s.tm.tid ∧ key = t.key
  log : ∀ entry ∈ s.log, entry.1.serial ≤ s.tm.tid

/-- The transaction is neither sent nor pending, and will not be: its serial is taken. It has not
timed out. -/
structure Absent (s : State) (t : Transaction) : Prop where
  sent : ∀ other ∈ s.sent, other.serial ≠ t.serial
  pending : ∀ key other, s.tm.pending key = some other → other.serial ≠ t.serial
  taken : t.serial ≤ s.tm.tid
  noTimeout : (t, .onTimeout) ∉ s.log

/-- The query of the transaction is sent, and the transaction is not filed yet. -/
structure Waiting (s : State) (t : Transaction) : Prop where
  inside : t ∈ s.sent
  only : ∀ other ∈ s.sent, other.serial = t.serial → other = t
  pending : ∀ key other, s.tm.pending key = some other → other.serial ≠ t.serial
  taken : t.serial ≤ s.tm.tid
  noTimeout : (t, .onTimeout) ∉ s.log

/-- The transaction is pending and has not timed out. -/
structure Held (s : State) (t : Transaction) : Prop where
  pending : s.tm.pending t.key = some t
  sent : ∀ other ∈ s.sent, other.serial ≠ t.serial
  only : ∀ key other, s.tm.pending key = some other → other.serial = t.serial → key = t.key
  taken : t.serial ≤ s.tm.tid
  noTimeout : (t, .onTimeout) ∉ s.log

theorem initial_fresh : Fresh State.initial where
  sent _ member := nomatch member
  pending _ _ found := nomatch found
  log _ member := nomatch member

theorem step_fresh (s : State) (a : Action) (fresh : Fresh s) : Fresh (step s a) := by
  have grows := tid_step s a
  refine ⟨fun t member => ?_, fun key t pending => ?_, fun entry member => ?_⟩
  · rcases mem_sent_step member with ⟨old, _⟩ | ⟨new, counted⟩
    · exact (fresh.sent t old).trans grows
    · rw [new, counted]
  · rcases pending_step pending with old | ⟨sent, _, sameKey⟩
    · exact ⟨(fresh.pending key t old).1.trans grows, (fresh.pending key t old).2⟩
    · exact ⟨(fresh.sent t sent).trans grows, sameKey⟩
  · rcases mem_log_step member with old | ⟨key, pending, _⟩
    · exact (fresh.log entry old).trans grows
    · exact (fresh.pending key entry.1 pending).1.trans grows

section Location

variable {s : State} {t : Transaction} {a : Action}

theorem noTimeout_of_unpending
    (unpending : ∀ key other, s.tm.pending key = some other → other.serial ≠ t.serial)
    (noTimeout : (t, .onTimeout) ∉ s.log) : (t, .onTimeout) ∉ (step s a).log := by
  intro member
  rcases mem_log_step member with old | ⟨key, pending, _⟩
  · exact noTimeout old
  · exact unpending key t pending rfl

theorem unsent_step (unsent : ∀ other ∈ s.sent, other.serial ≠ t.serial)
    (taken : t.serial ≤ s.tm.tid) : ∀ other ∈ (step s a).sent, other.serial ≠ t.serial := by
  intro other member
  rcases mem_sent_step member with ⟨old, _⟩ | ⟨new, _⟩
  · exact unsent other old
  · omega

theorem step_send (fresh : Fresh s) (t : Transaction) :
    Waiting (step s (.send t)) (identify s.tm t) := by
  have unused : ∀ serial, serial ≤ s.tm.tid → serial ≠ (identify s.tm t).serial := by
    intro serial bound
    exact (Nat.lt_succ_of_le bound).ne
  refine ⟨List.mem_append_right _ List.mem_cons_self, fun other member same => ?_,
    fun key other pending => ?_, le_rfl, fun member => ?_⟩
  · rcases List.mem_append.mp member with old | new
    · exact absurd same (unused _ (fresh.sent other old))
    · exact List.mem_singleton.mp new
  · exact unused _ (fresh.pending key other pending).1
  · exact unused _ (fresh.log _ member) rfl

theorem step_absent (absent : Absent s t) : Absent (step s a) t where
  sent := unsent_step absent.sent absent.taken
  pending key other pending := by
    rcases pending_step pending with old | ⟨sent, _, _⟩
    · exact absent.pending key other old
    · exact absent.sent other sent
  taken := absent.taken.trans (tid_step s a)
  noTimeout := noTimeout_of_unpending absent.pending absent.noTimeout

theorem step_waiting (waiting : Waiting s t) (notFiled : a ≠ .register t.serial) :
    Waiting (step s a) t where
  inside := mem_sent_step_of_ne waiting.inside notFiled
  only other member same := by
    rcases mem_sent_step member with ⟨old, _⟩ | ⟨new, _⟩
    · exact waiting.only other old same
    · have taken := waiting.taken
      omega
  pending key other pending same := by
    rcases pending_step pending with old | ⟨_, filed, _⟩
    · exact waiting.pending key other old same
    · rw [same] at filed
      exact notFiled filed
  taken := waiting.taken.trans (tid_step s a)
  noTimeout := noTimeout_of_unpending waiting.pending waiting.noTimeout

theorem step_register (waiting : Waiting s t) : Held (step s (.register t.serial)) t := by
  have found : (s.sent.find? fun other => other.serial == t.serial) = some t := by
    cases search : s.sent.find? fun other => other.serial == t.serial with
    | none => simpa using List.find?_eq_none.mp search t waiting.inside
    | some other =>
      have same : other.serial = t.serial := by simpa using List.find?_some search
      rw [waiting.only other (List.mem_of_find?_eq_some search) same]
  rw [step_register_some found]
  have pending := s.tm.pending_addTransaction t
  refine ⟨?_, fun other member same => ?_, fun key other holds same => ?_, waiting.taken,
    waiting.noTimeout⟩
  · rw [pending, if_pos rfl]
  · have different := (List.mem_filter.mp member).2
    rw [same] at different
    simp at different
  · rw [pending] at holds
    split at holds
    · assumption
    · exact absurd same (waiting.pending key other holds)

theorem step_held (held : Held s t) (notLooked : ¬ LooksUp t.key a) (notExpired : ¬ Expires t a)
    (notReplaced : ¬ Replaces s t a) : Held (step s a) t where
  pending := pending_step_of_spared held.pending notLooked notExpired notReplaced held.sent
  sent := unsent_step held.sent held.taken
  only key other pending same := by
    rcases pending_step pending with old | ⟨sent, _, _⟩
    · exact held.only key other old same
    · exact absurd same (held.sent other sent)
  taken := held.taken.trans (tid_step s a)
  noTimeout member := by
    rcases mem_log_step member with old | ⟨key, pending, looked | ⟨expired, _⟩⟩
    · exact held.noTimeout old
    · rw [held.only key t pending rfl] at looked
      exact notLooked looked
    · exact notExpired expired

theorem step_replaced (held : Held s t) (replaced : Replaces s t a) : Absent (step s a) t := by
  cases a with
  | register serial =>
    obtain ⟨other, found, different, sameKey⟩ := replaced
    have unsent := unsent_step (a := .register serial) held.sent held.taken
    rw [step_register_some found] at unsent ⊢
    refine ⟨unsent, fun key next holds same => ?_, held.taken, held.noTimeout⟩
    rw [TransactionManager.pending_addTransaction, sameKey] at holds
    split at holds
    · obtain rfl := Option.some.inj holds
      exact different same
    · exact absurd (held.only key next holds same) ‹_›
  | send _ | failSend | handle _ _ _ | sweep _ _ _ => exact replaced.elim

theorem step_completed {addr : Addr} {m : Message} {changed : Bool} {outcome : Outcome}
    (held : Held s t) (sameKey : (⟨m.t, addr.string⟩ : TransactionKey) = t.key)
    (looked : outcomeOf addr m changed = some outcome) :
    Absent (step s (.handle addr m changed)) t := by
  have unsent := unsent_step (a := .handle addr m changed) held.sent held.taken
  rw [step_handle_some looked] at unsent ⊢
  refine ⟨unsent, fun key other pending same => ?_, ?_, fun member => ?_⟩
  · rw [TransactionManager.pending_popTransaction, sameKey] at pending
    split at pending
    · cases pending
    · exact absurd (held.only key other pending same) ‹_›
  · exact held.taken.trans (TransactionManager.popTransaction_tid _ _ _).ge
  · rw [sameKey, held.pending] at member
    rcases List.mem_append.mp member with old | new
    · exact held.noTimeout old
    · have timedOut : Outcome.onTimeout = outcome := (Prod.mk.inj (List.mem_singleton.mp new)).2
      have isAnswer := mem_of_outcomeOf looked
      rw [← timedOut] at isAnswer
      simp at isAnswer

end Location

/-! ### Runs -/

def Ended (s : State) (t : Transaction) : Prop :=
  ∃ outcome, (t, outcome) ∈ s.log

theorem run_absent {s : State} {t : Transaction} (absent : Absent s t) (actions : List Action) :
    Absent (run step s actions) t :=
  run_holds step (P := fun s => Absent s t) (fun _ _ absent => step_absent absent) absent actions

theorem run_ended {s : State} {t : Transaction} (ended : Ended s t) (actions : List Action) :
    Ended (run step s actions) t := by
  refine run_holds step (P := fun s => Ended s t) (fun s a ended => ?_) ended actions
  obtain ⟨outcome, member⟩ := ended
  exact ⟨outcome, log_subset_step s a member⟩

/-- A pending transaction that has not ended after a run is pending still, or has been replaced. -/
theorem run_held {s : State} {t : Transaction} {actions : List Action} (held : Held s t)
    (notEnded : ¬ Ended (run step s actions) t) :
    ((∀ point ∈ trace step s actions, ¬ Replaces point.1 t point.2) ∧
        Held (run step s actions) t) ∨
      ((∃ point ∈ trace step s actions, Replaces point.1 t point.2) ∧
        Absent (run step s actions) t) := by
  induction actions generalizing s with
  | nil => exact Or.inl ⟨nofun, held⟩
  | cons a rest ih =>
    have notLooked : ¬ LooksUp t.key a := fun looked =>
      notEnded (run_ended (log_step_of_looksUp held.pending looked) rest)
    have notExpired : ¬ Expires t a := fun expired =>
      notEnded (run_ended ⟨_, log_step_of_expires held.pending expired⟩ rest)
    by_cases replaced : Replaces s t a
    · refine Or.inr ⟨⟨(s, a), List.mem_cons_self, replaced⟩, ?_⟩
      exact run_absent (step_replaced held replaced) rest
    · rcases ih (step_held held notLooked notExpired replaced) notEnded with
        ⟨never, stays⟩ | ⟨⟨point, member, later⟩, gone⟩
      · refine Or.inl ⟨fun point member => ?_, stays⟩
        rcases List.mem_cons.mp member with rfl | later
        · exact replaced
        · exact never point later
      · exact Or.inr ⟨⟨point, List.mem_cons_of_mem _ member, later⟩, gone⟩

/-- In the actions that follow its query in the state `s`, the transaction is filed, and no other
one is filed under its key after that. -/
def RegisteredBefore (s : State) (t : Transaction) (actions : List Action) : Prop :=
  ∃ first rest, actions = first ++ .register t.serial :: rest ∧ .register t.serial ∉ first ∧
    ∀ point ∈ trace step (run step s (first ++ [.register t.serial])) rest,
      ¬ Replaces point.1 t point.2

/-- A waiting transaction that has not ended after a run is pending exactly if it was filed and not
replaced. -/
theorem run_waiting {s : State} {t : Transaction} {actions : List Action} (waiting : Waiting s t)
    (notEnded : ¬ Ended (run step s actions) t) :
    (RegisteredBefore s t actions ∧ Held (run step s actions) t) ∨
      (¬ RegisteredBefore s t actions ∧
        ∀ key other, (run step s actions).tm.pending key = some other →
          other.serial ≠ t.serial) := by
  have waits : ∀ first, .register t.serial ∉ first → Waiting (run step s first) t :=
    fun first notFiled => run_holds_of_mem step (P := fun s => Waiting s t)
      (G := fun a => a ≠ .register t.serial)
      (fun _ _ waiting notFiled => step_waiting waiting notFiled) waiting
      fun a member same => notFiled (same ▸ member)
  by_cases filed : .register t.serial ∈ actions
  · obtain ⟨first, rest, rfl, notBefore⟩ := List.eq_append_cons_of_mem filed
    have held : Held (run step s (first ++ [.register t.serial])) t := by
      rw [run_append]
      exact step_register (waits first notBefore)
    have ends : run step s (first ++ .register t.serial :: rest) =
        run step (run step s (first ++ [.register t.serial])) rest := by
      rw [← run_append, List.append_assoc, List.singleton_append]
    rw [ends] at notEnded ⊢
    rcases run_held held notEnded with ⟨never, stays⟩ | ⟨⟨point, member, replaced⟩, gone⟩
    · exact Or.inl ⟨⟨first, rest, rfl, notBefore, never⟩, stays⟩
    · refine Or.inr ⟨?_, gone.pending⟩
      rintro ⟨first', rest', same, notBefore', never⟩
      obtain ⟨rfl, rfl⟩ := first_split_unique same notBefore notBefore'
      exact never point member replaced
  · refine Or.inr ⟨?_, (waits actions filed).pending⟩
    rintro ⟨first, rest, rfl, _⟩
    exact filed (List.mem_append_right _ List.mem_cons_self)

def Reachable (s : State) : Prop :=
  ∃ actions, s = run step State.initial actions

theorem Reachable.fresh {s : State} (reachable : Reachable s) : Fresh s := by
  obtain ⟨actions, rfl⟩ := reachable
  exact run_holds step step_fresh initial_fresh actions

/-- **When an answer completes its transaction.** The query of `t` is sent in a reachable state,
other threads take any steps until an answer from the queried address with the id of the query is
received, and any steps follow it. If the transaction has not ended before, the answer runs its
handler, and it never times out, exactly when `handleMessage` looks for the transaction of such an
answer, and the transaction was filed before and not replaced. -/
theorem completed_iff_registered_before {s : State} (reachable : Reachable s) (t : Transaction)
    (middle after : List Action) (addr : Addr) (m : Message) (changed : Bool)
    (answers : m.t = (identify s.tm t).id) (queried : addr.string = t.addr.string)
    (notEnded : ¬ Ended (run step s (.send t :: middle)) (identify s.tm t)) :
    ((∃ outcome ∈ [.onResponse addr m, .onError m.e.code m.e.reason],
        (run step s (.send t :: middle ++ [.handle addr m changed])).log =
          (run step s (.send t :: middle)).log ++ [(identify s.tm t, outcome)]) ∧
        (identify s.tm t, .onTimeout) ∉
          (run step s (.send t :: middle ++ .handle addr m changed :: after)).log) ↔
      (outcomeOf addr m changed).isSome = true ∧
        RegisteredBefore (step s (.send t)) (identify s.tm t) middle := by
  have sameKey : (⟨m.t, addr.string⟩ : TransactionKey) = (identify s.tm t).key := by
    rw [answers, queried]
    rfl
  simp only [List.cons_append, run_cons, run_append, run_nil] at notEnded ⊢
  cases received : outcomeOf addr m changed with
  | none =>
    refine iff_of_false ?_ (by simp)
    rintro ⟨⟨outcome, _, grown⟩, _⟩
    rw [step_handle_none received] at grown
    exact List.cons_ne_nil _ _ (List.self_eq_append_right.mp grown)
  | some outcome =>
    rw [Option.isSome_some, eq_self, true_and]
    have handled := step_handle_log (run step (step s (.send t)) middle) received
    rw [sameKey] at handled
    rcases run_waiting (step_send reachable.fresh t) notEnded with
      ⟨registered, held⟩ | ⟨unregistered, unpending⟩
    · refine iff_of_true ⟨⟨outcome, mem_of_outcomeOf received, ?_⟩, ?_⟩ registered
      · rw [handled, held.pending]
        rfl
      · exact (run_absent (step_completed held sameKey received) after).noTimeout
    · refine iff_of_false ?_ unregistered
      rintro ⟨⟨other, _, completed⟩, _⟩
      have entries := List.append_cancel_left (handled.symm.trans completed)
      cases pending : (run step (step s (.send t)) middle).tm.pending (identify s.tm t).key with
      | none =>
          rw [pending] at entries
          cases entries
      | some filed =>
          rw [pending] at entries
          have same : filed = identify s.tm t := (Prod.mk.inj (List.cons.inj entries).1).1
          exact unpending _ filed pending (by rw [same])

/-- A node, a ping of it at time 0, its answer, and a sweep after the response timeout. -/
def pingedAddr : Addr := ⟨[10, 0, 0, 1], 6881⟩

def pingTransaction : Transaction := newTransaction pingedAddr queryMethodPing {} none 0

def pingAnswer : Message := newResponseMsg (str "1") { id := Hash.fill 2 }

def lateSweep : Action := .sweep (GoMap.RangeOrder.asStored Transaction) (minute * 2) minute

/-- The theorem at an answer that is handled after the transaction is filed. -/
theorem answer_after_register_completes :
    (∃ outcome ∈ [.onResponse pingedAddr pingAnswer,
          .onError pingAnswer.e.code pingAnswer.e.reason],
        (run step State.initial
          [.send pingTransaction, .register 1, .handle pingedAddr pingAnswer false]).log =
            [(identify State.initial.tm pingTransaction, outcome)]) ∧
      (identify State.initial.tm pingTransaction, .onTimeout) ∉
        (run step State.initial [.send pingTransaction, .register 1,
          .handle pingedAddr pingAnswer false, lateSweep]).log :=
  (completed_iff_registered_before ⟨[], rfl⟩ pingTransaction [.register 1]
    [lateSweep] pingedAddr pingAnswer false (by decide) rfl
    (fun ⟨_, member⟩ => nomatch member)).mpr ⟨by decide, [], [], rfl, by simp, by simp [trace]⟩

/-- **A lost answer**: handled between the two halves of the request, it completes nothing, and the
transaction times out. -/
theorem answer_before_register_lost :
    pingAnswer.t = (identify State.initial.tm pingTransaction).id ∧
      outcomeOf pingedAddr pingAnswer false = some (.onResponse pingedAddr pingAnswer) ∧
      (run step State.initial
        [.send pingTransaction, .handle pingedAddr pingAnswer false]).log = [] ∧
      (run step State.initial [.send pingTransaction, .handle pingedAddr pingAnswer false,
          .register 1, lateSweep]).log =
        [(identify State.initial.tm pingTransaction, .onTimeout)] := by
  decide

end GoBt.Dht.Delivery
