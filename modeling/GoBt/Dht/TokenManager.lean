/-
**The token manager.**

One current and one previous token for everybody, and the addresses that were handed a token, each
with the time of its last one. Random tokens are arguments.

* `TokenManager.check_run_iff` — **what `check` says after any history** of handed tokens, rotations
  and clears: the token is one of the last two generated, and the address was handed a token that no
  clear has expired since.
* **`TokenManager.token_window`** — a token that an address was handed is accepted from it until the
  second rotation after that, if no clear has expired the address, and not any more after it; an
  address that was never handed a token is refused.
-/

import GoBt.Krpc.AddrText
import GoBt.Lib.GoMap
import GoBt.Lib.Runs

namespace GoBt.Dht

open GoBt.Lib GoBt.Krpc

structure TokenManager where
  last : GoString
  new : GoString
  addrs : GoMap GoString Time

namespace TokenManager

def newTokenManager (token : GoString) : TokenManager := ⟨token, token, ∅⟩

def updateToken (tm : TokenManager) (token : GoString) : TokenManager :=
  { tm with last := tm.new, new := token }

def clear (tm : TokenManager) (now : Time) (expired : Duration) : TokenManager :=
  { tm with addrs := GoMap.deleteIf (fun _ time => now.sub time ≥ expired) tm.addrs }

/-- `tm.Token(addr)` at the time `now`. -/
def token (tm : TokenManager) (addr : Addr) (now : Time) : GoString × TokenManager :=
  (tm.new, { tm with addrs := tm.addrs.insert addr.string now })

def check (tm : TokenManager) (addr : Addr) (token : GoString) : Bool :=
  if tm.last == token || tm.new == token then (tm.addrs.lookup addr.string).isSome else false

theorem check_eq_true_iff (tm : TokenManager) (addr : Addr) (token : GoString) :
    tm.check addr token = true ↔
      (tm.last = token ∨ tm.new = token) ∧ (tm.addrs.lookup addr.string).isSome = true := by
  simp [check]

/-! ### Histories -/

inductive Op
  | token (addr : Addr) (now : Time)
  | updateToken (token : GoString)
  | clear (now : Time) (expired : Duration)

def step (tm : TokenManager) : Op → TokenManager
  | .token addr now => (tm.token addr now).2
  | .updateToken token => tm.updateToken token
  | .clear now expired => tm.clear now expired

def Op.newToken : Op → Option GoString
  | .updateToken text => some text
  | _ => none

/-- The tokens generated in a history that starts with the token `first`, oldest first. -/
def generated (first : GoString) (ops : List Op) : List GoString := first :: ops.filterMap Op.newToken

/-- The operation hands a token to the address at the given time. -/
def Op.Hands (addr : Addr) : Op → Time → Prop
  | .token holder now, time => holder.string = addr.string ∧ now = time
  | _, _ => False

/-- The operation leaves what the address was handed at the given time: it neither hands it another
token nor clears it. -/
def Op.Spares (addr : Addr) : Op → Time → Prop
  | .token holder _, _ => holder.string ≠ addr.string
  | .updateToken _, _ => True
  | .clear now expired, time => now.sub time < expired

def Holds (ops : List Op) (addr : Addr) : Prop :=
  ∃ before op after time, ops = before ++ op :: after ∧ op.Hands addr time ∧
    ∀ later ∈ after, later.Spares addr time

/-- The token is the current or the previous one, and the address was handed a token that has not
been cleared. -/
def Valid (first : GoString) (ops : List Op) (addr : Addr) (token : GoString) : Prop :=
  token ∈ (generated first ops).reverse.take 2 ∧ Holds ops addr

theorem step_lookup_iff (tm : TokenManager) (op : Op) (addr : Addr) (time : Time) :
    (tm.step op).addrs.lookup addr.string = some time ↔
      op.Hands addr time ∨ (tm.addrs.lookup addr.string = some time ∧ op.Spares addr time) := by
  cases op with
  | token holder now =>
    simp only [step, token, Op.Hands, Op.Spares, GoMap.lookup_insert]
    by_cases same : addr.string = holder.string
    · simp [same]
    · simp [same, Ne.symm same]
  | updateToken token => simp [step, updateToken, Op.Hands, Op.Spares]
  | clear now expired =>
    simp [step, clear, Op.Hands, Op.Spares, GoMap.lookup_deleteIf]

theorem generated_append (first : GoString) (before after : List Op) :
    generated first (before ++ after) =
      generated first before ++ after.filterMap Op.newToken := by
  rw [generated, generated, List.filterMap_append, List.cons_append]

theorem reverse_generated (first : GoString) (ops : List Op) :
    ∃ older, (generated first ops).reverse = (run step (newTokenManager first) ops).new :: older ∧
      (older.head?.getD first = (run step (newTokenManager first) ops).last) := by
  induction ops using List.reverseRecOn with
  | nil => exact ⟨[], rfl, rfl⟩
  | append_singleton ops op ih =>
    obtain ⟨older, all, previous⟩ := ih
    rw [run_append, generated_append, List.reverse_append, all]
    cases op with
    | updateToken token => exact ⟨_, rfl, rfl⟩
    | token holder now | clear now expired => exact ⟨older, rfl, previous⟩

theorem run_tokens (first : GoString) (ops : List Op) (token : GoString) :
    ((run step (newTokenManager first) ops).last = token ∨
        (run step (newTokenManager first) ops).new = token) ↔
      token ∈ (generated first ops).reverse.take 2 := by
  obtain ⟨older, all, previous⟩ := reverse_generated first ops
  rw [all, ← previous]
  cases older with
  | nil =>
    -- only the first token exists, and it is the current one
    have only : (run step (newTokenManager first) ops).new = first := by
      have reversed := congrArg List.reverse all
      rw [List.reverse_reverse] at reversed
      exact (List.cons.inj reversed).1.symm
    simp [only, eq_comm]
  | cons older rest => simp [or_comm, eq_comm]

theorem check_run_iff (first : GoString) (ops : List Op) (addr : Addr) (token : GoString) :
    (run step (newTokenManager first) ops).check addr token = true ↔
      Valid first ops addr token := by
  have written : ∀ time,
      (run step (newTokenManager first) ops).addrs.lookup addr.string = some time ↔
      ∃ before op after, ops = before ++ op :: after ∧ op.Hands addr time ∧
        ∀ later ∈ after, later.Spares addr time := fun time =>
    last_write_of_none step (fun tm => tm.addrs.lookup addr.string)
      (fun tm op time => step_lookup_iff tm op addr time) rfl
  have entry : ((run step (newTokenManager first) ops).addrs.lookup addr.string).isSome = true ↔
      Holds ops addr := by
    rw [Option.isSome_iff_exists]
    constructor
    · rintro ⟨time, found⟩
      obtain ⟨before, op, after, split, hands, spared⟩ := (written time).mp found
      exact ⟨before, op, after, time, split, hands, spared⟩
    · rintro ⟨before, op, after, time, split, hands, spared⟩
      exact ⟨time, (written time).mpr ⟨before, op, after, split, hands, spared⟩⟩
  rw [Valid, ← run_tokens, ← entry, check_eq_true_iff]

/-! ### The window of a token -/

def Op.time : Op → Option Time
  | .token _ now => some now
  | .updateToken _ => none
  | .clear now _ => some now

def rotations (ops : List Op) : Nat := (ops.filterMap Op.newToken).length

/-- The time of the latest token of the address, which was handed one at `time` before. -/
def latest (addr : Addr) (time : Time) (ops : List Op) : Time :=
  ops.foldl (fun time op => match op with
    | .token holder now => if holder.string = addr.string then now else time
    | _ => time) time

/-- No clear expires the address, which was handed a token at `time` before. -/
def Unexpired (addr : Addr) (time : Time) (ops : List Op) : Prop :=
  ∀ before now expired after, ops = before ++ .clear now expired :: after →
    now - latest addr time before < expired

theorem latest_le {addr : Addr} {time bound : Time} {ops : List Op} (start : time ≤ bound)
    (before : ∀ earlier ∈ ops.filterMap Op.time, earlier ≤ bound) :
    latest addr time ops ≤ bound := by
  induction ops generalizing time with
  | nil => exact start
  | cons op rest ih =>
    cases op with
    | token holder now =>
      obtain ⟨here, later⟩ := List.forall_mem_cons.mp before
      refine ih ?_ later
      dsimp only
      split
      · exact here
      · exact start
    | updateToken token => exact ih start before
    | clear now expired => exact ih start (List.forall_mem_cons.mp before).2

/-- **The entry of an address** that no clear expires has the time of its latest token. -/
theorem run_lookup_latest {tm : TokenManager} {addr : Addr} {time : Time} {ops : List Op}
    (entry : tm.addrs.lookup addr.string = some time)
    (times : (time :: ops.filterMap Op.time).Pairwise (· ≤ ·)) (kept : Unexpired addr time ops) :
    (run step tm ops).addrs.lookup addr.string = some (latest addr time ops) := by
  induction ops using List.reverseRecOn with
  | nil => exact entry
  | append_singleton ops op ih =>
    rw [List.filterMap_append, ← List.cons_append] at times
    obtain ⟨earlier, _, later⟩ := List.pairwise_append.mp times
    have before := ih earlier fun front now expired back split =>
      kept front now expired (back ++ [op]) (by rw [split]; simp)
    rw [run_append, run_cons, run_nil, step_lookup_iff, before, latest, List.foldl_append]
    cases op with
    | token holder now =>
      simp only [List.foldl_cons, List.foldl_nil, Op.Hands, Op.Spares, Option.some_inj]
      split
      · rename_i same
        exact .inl ⟨same, rfl⟩
      · rename_i other
        exact .inr ⟨rfl, other⟩
    | updateToken token => exact .inr ⟨rfl, trivial⟩
    | clear now expired =>
      refine .inr ⟨rfl, ?_⟩
      have young := kept ops now expired [] rfl
      have old : latest addr time ops ≤ now := latest_le
        (later time List.mem_cons_self now (by simp [Op.time]))
        fun earlier member => later earlier (List.mem_cons_of_mem _ member) now
          (by simp [Op.time])
      exact (Time.sub_le old).trans_lt young

theorem mem_recent_iff {first : GoString} {before after : List Op}
    (noRepeat : (generated first (before ++ after)).Nodup) :
    (run step (newTokenManager first) before).new ∈
        (generated first (before ++ after)).reverse.take 2 ↔
      rotations after < 2 := by
  obtain ⟨older, all, _⟩ := reverse_generated first before
  rw [generated_append] at noRepeat ⊢
  rw [List.reverse_append, all]
  have new : (run step (newTokenManager first) before).new ∈ generated first before := by
    rw [← List.mem_reverse, all]
    exact List.mem_cons_self
  have apart := (List.nodup_append.mp noRepeat).2.2 _ new
  unfold rotations
  generalize after.filterMap Op.newToken = tokens at apart ⊢
  constructor
  · intro member
    by_contra many
    rw [List.take_append_of_le_length (by rw [List.length_reverse]; omega)] at member
    exact apart _ (List.mem_reverse.mp (List.mem_of_mem_take member)) rfl
  · intro few
    rw [List.take_append, List.mem_append]
    right
    rw [List.length_reverse, show 2 - tokens.length = 1 - tokens.length + 1 by omega]
    exact List.mem_cons_self

/-- **The window of a token.** -/
theorem token_window (first : GoString) (ops : List Op)
    (times : (ops.filterMap Op.time).Pairwise (· ≤ ·)) (noRepeat : (generated first ops).Nodup) :
    (∀ before addr time after, ops = before ++ .token addr time :: after →
        let token := ((run step (newTokenManager first) before).token addr time).1
        (rotations after < 2 → Unexpired addr time after →
          (run step (newTokenManager first) ops).check addr token = true) ∧
        (2 ≤ rotations after → (run step (newTokenManager first) ops).check addr token = false)) ∧
      ∀ addr, (∀ holder now, .token holder now ∈ ops → holder.equal addr = false) →
        ∀ token, (run step (newTokenManager first) ops).check addr token = false := by
  constructor
  · rintro before addr time after rfl token
    have recent := mem_recent_iff noRepeat
    rw [← run_tokens] at recent
    constructor
    · intro few kept
      have entry : (run step (newTokenManager first) (before ++ [.token addr time])).addrs.lookup
          addr.string = some time := by
        rw [run_append, run_cons, run_nil, step_lookup_iff]
        exact .inl ⟨rfl, rfl⟩
      rw [List.filterMap_append] at times
      have held := run_lookup_latest entry (List.pairwise_append.mp times).2.1 kept
      rw [← run_append, List.append_assoc, List.singleton_append] at held
      rw [check_eq_true_iff, held]
      exact ⟨recent.mpr few, rfl⟩
    · intro many
      rw [← Bool.not_eq_true, check_eq_true_iff]
      exact fun accepted => absurd (recent.mp accepted.1) (not_lt.mpr many)
  · intro addr never token
    rw [← Bool.not_eq_true, check_run_iff]
    rintro ⟨_, before, op, after, time, rfl, hands, _⟩
    cases op with
    | token holder now =>
        have other := never holder now (by simp)
        rw [Addr.equal_of_string_eq hands.1] at other
        cases other
    | updateToken token => exact hands
    | clear now expired => exact hands

theorem token_window_two :
    let addr : Addr := ⟨[10, 0, 0, 1], 1⟩
    let ops : List Op := [.token addr 1, .updateToken (str "b"), .clear 5 9, .updateToken (str "c")]
    (∀ before holder time after, ops = before ++ .token holder time :: after →
        let token := ((run step (newTokenManager (str "a")) before).token holder time).1
        (rotations after < 2 → Unexpired holder time after →
          (run step (newTokenManager (str "a")) ops).check holder token = true) ∧
        (2 ≤ rotations after →
          (run step (newTokenManager (str "a")) ops).check holder token = false)) ∧
      ∀ other, (∀ holder now, .token holder now ∈ ops → holder.equal other = false) →
        ∀ token, (run step (newTokenManager (str "a")) ops).check other token = false :=
  token_window (str "a") _ (by decide) (by decide)

end TokenManager

end GoBt.Dht
