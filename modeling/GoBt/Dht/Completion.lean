/-
**Every transaction ends at most once, by an answer to its own query.**

Receiving threads and the sweeper race to take a transaction out of the map; the ids come from a
shared counter, and the key of a transaction holds the text of its address.

* `ran` — the handlers that a step runs.
* `Once` — the invariant of every interleaving: a transaction is in one place, and what has ended is
  in none.
* **`completion_once_attributed`** — over every interleaving, no transaction has two handlers run,
  and a handler for an answer runs for a message with the id of the transaction that came from the
  queried IP and port.
-/

import GoBt.Dht.Delivery
import GoBt.Krpc.AddrText

namespace GoBt.Dht.Delivery

open GoBt.Lib GoBt.Krpc

/-- The handlers that a step runs, each with its transaction. -/
def ran (s : State) (a : Action) : List (Transaction × Outcome) :=
  (step s a).log.drop s.log.length

theorem ran_cases (s : State) (a : Action) :
    ran s a = [] ∨
      (∃ addr m changed outcome t, a = .handle addr m changed ∧
        outcomeOf addr m changed = some outcome ∧ s.tm.pending ⟨m.t, addr.string⟩ = some t ∧
        ran s a = [(t, outcome)]) ∨
      ∃ order now interval, a = .sweep order now interval ∧
        ran s a = (s.tm.sweep order now interval).1.map fun t => (t, .onTimeout) := by
  unfold ran
  have steps := stepsTo_step s a
  generalize step s a = next at steps
  cases steps with
  | send _ | failSend | filed _ | missing _ | ignored _ => exact Or.inl List.drop_length
  | answered looked =>
    rename_i addr m changed outcome
    dsimp only
    rw [List.drop_left]
    cases pending : s.tm.pending ⟨m.t, addr.string⟩ with
    | none => exact Or.inl rfl
    | some t => exact Or.inr (Or.inl ⟨addr, m, changed, outcome, t, rfl, looked, pending, rfl⟩)
  | swept order now interval =>
    dsimp only
    rw [List.drop_left]
    exact Or.inr (Or.inr ⟨order, now, interval, rfl, rfl⟩)

theorem log_step (s : State) (a : Action) : (step s a).log = s.log ++ ran s a := by
  unfold ran
  have steps := stepsTo_step s a
  generalize step s a = next at steps ⊢
  cases steps with
  | send _ | failSend | filed _ | missing _ | ignored _ =>
    rw [List.drop_length, List.append_nil]
  | answered _ | swept _ _ _ =>
    dsimp only
    rw [List.drop_left]

/-- The transaction is nowhere any more. -/
structure Over (s : State) (t : Transaction) : Prop where
  sent : ∀ other ∈ s.sent, other.serial ≠ t.serial
  pending : ∀ key other, s.tm.pending key = some other → other.serial ≠ t.serial

theorem over_step {s : State} {a : Action} {t : Transaction} (gone : Over s t)
    (taken : t.serial ≤ s.tm.tid) : Over (step s a) t where
  sent := unsent_step gone.sent taken
  pending key other pending := by
    rcases pending_step pending with old | ⟨sent, _, _⟩
    · exact gone.pending key other old
    · exact gone.sent other sent

/-- **Where transactions are**: sent, pending under one key, or over; and none is over twice. -/
structure Once (s : State) : Prop extends Fresh s where
  serials : (s.sent.map Transaction.serial).Nodup
  apart : ∀ t ∈ s.sent, ∀ key other, s.tm.pending key = some other → other.serial ≠ t.serial
  only : ∀ key key' t t', s.tm.pending key = some t → s.tm.pending key' = some t' →
    t.serial = t'.serial → key = key'
  ended : ∀ entry ∈ s.log, Over s entry.1
  nodup : (s.log.map fun entry => entry.1.serial).Nodup

theorem initial_once : Once State.initial where
  toFresh := initial_fresh
  serials := List.nodup_nil
  apart _ member := nomatch member
  only _ _ _ _ pending := nomatch pending
  ended _ member := nomatch member
  nodup := List.nodup_nil

section Step

variable {s : State} {a : Action}

theorem serials_step (fresh : Fresh s) (serials : (s.sent.map Transaction.serial).Nodup) :
    ((step s a).sent.map Transaction.serial).Nodup := by
  have steps := stepsTo_step s a
  generalize step s a = next at steps ⊢
  cases steps with
  | send t =>
    rw [List.map_append]
    refine List.nodup_append.mpr ⟨serials, List.nodup_singleton _, ?_⟩
    rintro serial old _ new rfl
    obtain ⟨t', member, rfl⟩ := List.mem_map.mp old
    have taken := fresh.sent t' member
    rw [List.mem_singleton.mp new] at taken
    exact absurd taken (Nat.not_succ_le_self s.tm.tid)
  | failSend | missing _ | answered _ | ignored _ | swept _ _ _ => exact serials
  | filed _ => exact serials.sublist (List.filter_sublist.map _)

theorem Once.ran_over (once : Once s) {entry : Transaction × Outcome} (member : entry ∈ ran s a) :
    (∃ key, s.tm.pending key = some entry.1) ∧ Over (step s a) entry.1 := by
  have unsent : ∀ {key : TransactionKey}, s.tm.pending key = some entry.1 →
      ∀ other ∈ (step s a).sent, other.serial ≠ entry.1.serial := by
    intro key pending
    exact unsent_step (fun other inside => (once.apart other inside key _ pending).symm)
      (once.toFresh.pending key _ pending).1
  rcases ran_cases s a with nothing | ⟨addr, m, changed, outcome, t, rfl, looked, pending, runs⟩ |
    ⟨order, now, interval, rfl, runs⟩
  · rw [nothing] at member
    cases member
  · rw [runs] at member
    obtain rfl := List.mem_singleton.mp member
    refine ⟨⟨_, pending⟩, unsent pending, fun key other left same => ?_⟩
    rw [step_handle_some looked, TransactionManager.pending_popTransaction] at left
    split at left
    · cases left
    · exact absurd (once.only key _ other t left pending same) ‹_›
  · rw [runs] at member
    obtain ⟨t, swept, rfl⟩ := List.mem_map.mp member
    obtain ⟨⟨key, pending⟩, expired⟩ := TransactionManager.mem_sweep_iff.mp swept
    refine ⟨⟨key, pending⟩, unsent pending, fun key' other left same => ?_⟩
    have kept : (s.tm.sweep order now interval).2.pending key' = some other := left
    rw [TransactionManager.pending_sweep, Option.filter_eq_some_iff] at kept
    have sameKey := once.only key' key other t kept.1 pending same
    rw [sameKey, pending] at kept
    obtain rfl := Option.some.inj kept.1
    rw [expired] at kept
    cases kept.2

theorem Once.nodup_ran (once : Once s) :
    ((ran s a).map fun entry => entry.1.serial).Nodup := by
  rcases ran_cases s a with nothing | ⟨_, _, _, _, _, _, _, _, runs⟩ | ⟨order, now, interval, _, runs⟩
  · rw [nothing]
    exact List.nodup_nil
  · rw [runs]
    exact List.nodup_singleton _
  · rw [runs, List.map_map]
    have all : ((order.visit (GoMap.values s.tm.trans)).map Transaction.serial).Nodup :=
      ((order.perm _).map _).nodup_iff.mpr (GoMap.nodup_map_values once.only)
    exact all.sublist (List.filter_sublist.map _)

theorem step_once (s : State) (a : Action) (once : Once s) : Once (step s a) where
  toFresh := step_fresh s a once.toFresh
  serials := serials_step once.toFresh once.serials
  apart t member key other pending same := by
    rcases mem_sent_step member with ⟨old, notFiled⟩ | ⟨new, _⟩
    · rcases pending_step pending with before | ⟨sent, filed, _⟩
      · exact once.apart t old key other before same
      · exact notFiled (same ▸ filed)
    · have taken : other.serial ≤ s.tm.tid := by
        rcases pending_step pending with before | ⟨sent, _, _⟩
        · exact (once.toFresh.pending key other before).1
        · exact once.toFresh.sent other sent
      omega
  only key key' t t' pending pending' same := by
    rcases pending_step pending with before | ⟨sent, filed, rfl⟩
    · rcases pending_step pending' with before' | ⟨sent', _, _⟩
      · exact once.only key key' t t' before before' same
      · exact absurd same (once.apart t' sent' key t before)
    · rcases pending_step pending' with before' | ⟨_, _, rfl⟩
      · exact absurd same.symm (once.apart t sent key' t' before')
      · rw [List.inj_on_of_nodup_map once.serials sent ‹_› same]
  ended entry member := by
    rw [log_step] at member
    rcases List.mem_append.mp member with old | new
    · exact over_step (once.ended entry old) (once.toFresh.log entry old)
    · exact (once.ran_over new).2
  nodup := by
    rw [log_step, List.map_append]
    refine List.nodup_append.mpr ⟨once.nodup, once.nodup_ran, ?_⟩
    rintro serial old _ new rfl
    obtain ⟨entry, before, rfl⟩ := List.mem_map.mp old
    obtain ⟨entry', running, same⟩ := List.mem_map.mp new
    obtain ⟨⟨key, pending⟩, _⟩ := once.ran_over running
    exact (once.ended entry before).pending key _ pending same

end Step

/-- **At most once, and for its own query.** After any interleaving of requests, incoming messages
and sweeps no transaction has had two handlers run; and every handler that a step runs is that of a
timeout, or the step handles a message with the id of the transaction that comes from the address
the query went to. -/
theorem completion_once_attributed (actions : List Action) :
    ((run step State.initial actions).log.map fun entry => entry.1.serial).Nodup ∧
      ∀ before a after, actions = before ++ a :: after →
        ∀ entry ∈ ran (run step State.initial before) a,
          entry.2 = .onTimeout ∨ ∃ addr m changed, a = .handle addr m changed ∧
            outcomeOf addr m changed = some entry.2 ∧ addr.equal entry.1.addr = true ∧
            m.t = entry.1.id := by
  have reached : ∀ actions, Once (run step State.initial actions) := fun actions =>
    run_holds step step_once initial_once actions
  refine ⟨(reached actions).nodup, fun before a after _ entry member => ?_⟩
  rcases ran_cases (run step State.initial before) a with nothing |
    ⟨addr, m, changed, outcome, t, rfl, looked, pending, runs⟩ | ⟨_, _, _, _, runs⟩
  · rw [nothing] at member
    cases member
  · rw [runs] at member
    obtain rfl := List.mem_singleton.mp member
    have sameKey := ((reached before).toFresh.pending _ t pending).2
    obtain ⟨sameId, sameText⟩ := TransactionKey.mk.inj sameKey
    exact Or.inr ⟨addr, m, changed, rfl, looked, Addr.equal_of_string_eq sameText, sameId⟩
  · rw [runs] at member
    obtain ⟨t, _, rfl⟩ := List.mem_map.mp member
    exact Or.inl rfl

end GoBt.Dht.Delivery
