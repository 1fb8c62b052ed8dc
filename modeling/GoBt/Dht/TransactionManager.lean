/-
**The transaction manager.**

A transaction is a query that waits for its answer, filed under its id and the text of the address
it was sent to. Its handlers are names: `OnResponse` says which function of the server handles the
response; `OnError` and `OnTimeout` are the same for all transactions.

* `getTransactionID`, `addTransaction`, `popTransaction`, `sweep` as the source has them;
  `pending_addTransaction`, `pending_popTransaction` and `pending_sweep` say what each leaves
  pending.
-/

import GoBt.Krpc.Message
import GoBt.Lib.GoMap
import GoBt.Lib.Slice

namespace GoBt.Dht

open GoBt.Lib GoBt.Krpc GoBt.Metainfo

/-- What a callback of the user is told. -/
structure Result where
  addr : Option Addr := none
  code : Int := 0
  reason : GoString := []
  timeout : Bool := false
  peers : List GoString := []
  deriving DecidableEq

/-- The functions a transaction can have as `OnResponse`. -/
inductive ResponseHandler
  | noopResponse
  | onPingResp
  | onGetPeersResp
  | onFindNodeResp
  deriving DecidableEq

structure Transaction where
  /-- Which transaction it is: the number of ids taken when it got its id. -/
  serial : Nat := 0
  id : GoString := []
  query : GoString
  arg : QueryArg
  addr : Addr
  time : Time
  depth : Int := 0
  visited : SliceRef := SliceRef.nil
  /-- The callback of the user by its name; `none` is nil. -/
  callback : Option Nat := none
  onResponse : ResponseHandler := .noopResponse
  deriving DecidableEq

/-- `newTransaction(s, a, q, qa, cb)` at the time `now`. -/
def newTransaction (a : Addr) (q : GoString) (qa : QueryArg) (callback : Option Nat) (now : Time) :
    Transaction :=
  { addr := a, query := q, arg := qa, callback := callback, time := now }

structure TransactionKey where
  id : GoString
  addr : GoString
  deriving DecidableEq

def Transaction.key (t : Transaction) : TransactionKey := ⟨t.id, t.addr.string⟩

/-- The pending transactions, and how many ids have been taken; the counter of the source holds this
number modulo `2 ^ 32`. -/
structure TransactionManager where
  trans : GoMap TransactionKey Transaction
  tid : Nat

namespace TransactionManager

def newTransactionManager : TransactionManager := ⟨∅, 0⟩

def getTransactionID (tm : TransactionManager) : GoString × TransactionManager :=
  let tid := tm.tid + 1
  (numeral 36 (tid % 2 ^ 32), { tm with tid := tid })

def addTransaction (tm : TransactionManager) (t : Transaction) : TransactionManager :=
  { tm with trans := tm.trans.insert t.key t }

def deleteTransaction (tm : TransactionManager) (t : Transaction) : TransactionManager :=
  { tm with trans := tm.trans.erase t.key }

def popTransaction (tm : TransactionManager) (tid : GoString) (addr : Addr) :
    Option Transaction × TransactionManager :=
  let key : TransactionKey := ⟨tid, addr.string⟩
  match tm.trans.lookup key with
  | some t => (some t, { tm with trans := tm.trans.erase key })
  | none => (none, tm)

def expired (now : Time) (interval : Duration) (t : Transaction) : Bool := now.sub t.time > interval

/-- One tick of `Start(s, interval)`: the transactions that time out, and what is left. -/
def sweep (tm : TransactionManager) (order : GoMap.RangeOrder Transaction) (now : Time)
    (interval : Duration) : List Transaction × TransactionManager :=
  ((order.visit (GoMap.values tm.trans)).filter (expired now interval),
    { tm with trans := GoMap.deleteIf (fun _ t => expired now interval t) tm.trans })

/-! ### What is pending -/

def pending (tm : TransactionManager) (key : TransactionKey) : Option Transaction :=
  tm.trans.lookup key

theorem pending_addTransaction (tm : TransactionManager) (t : Transaction) (key : TransactionKey) :
    (tm.addTransaction t).pending key = if key = t.key then some t else tm.pending key :=
  GoMap.lookup_insert tm.trans t.key key t

theorem pending_deleteTransaction (tm : TransactionManager) (t : Transaction)
    (key : TransactionKey) :
    (tm.deleteTransaction t).pending key = if key = t.key then none else tm.pending key :=
  GoMap.lookup_erase tm.trans t.key key

theorem popTransaction_fst (tm : TransactionManager) (tid : GoString) (addr : Addr) :
    (tm.popTransaction tid addr).1 = tm.pending ⟨tid, addr.string⟩ := by
  unfold popTransaction pending
  cases found : tm.trans.lookup ⟨tid, addr.string⟩ with
  | none => simp [found]
  | some t => simp [found]

theorem popTransaction_tid (tm : TransactionManager) (tid : GoString) (addr : Addr) :
    (tm.popTransaction tid addr).2.tid = tm.tid := by
  unfold popTransaction
  cases found : tm.trans.lookup ⟨tid, addr.string⟩ with
  | none => simp [found]
  | some t => simp [found]

theorem pending_popTransaction (tm : TransactionManager) (tid : GoString) (addr : Addr)
    (key : TransactionKey) :
    (tm.popTransaction tid addr).2.pending key =
      if key = ⟨tid, addr.string⟩ then none else tm.pending key := by
  unfold popTransaction pending
  cases found : tm.trans.lookup ⟨tid, addr.string⟩ with
  | none =>
    simp only [found]
    by_cases same : key = ⟨tid, addr.string⟩
    · rw [if_pos same, same, found]
    · rw [if_neg same]
  | some t =>
    simp only [found]
    exact GoMap.lookup_erase tm.trans _ key

theorem pending_sweep (tm : TransactionManager) (order : GoMap.RangeOrder Transaction) (now : Time)
    (interval : Duration) (key : TransactionKey) :
    (tm.sweep order now interval).2.pending key =
      (tm.pending key).filter fun t => !expired now interval t :=
  GoMap.lookup_deleteIf _ tm.trans key

theorem mem_sweep_iff {tm : TransactionManager} {order : GoMap.RangeOrder Transaction} {now : Time}
    {interval : Duration} {t : Transaction} :
    t ∈ (tm.sweep order now interval).1 ↔
      (∃ key, tm.pending key = some t) ∧ expired now interval t = true := by
  unfold sweep pending
  rw [List.mem_filter, (order.perm _).mem_iff, GoMap.mem_values_iff]

end TransactionManager

end GoBt.Dht
