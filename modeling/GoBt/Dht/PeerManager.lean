/-
**The token-peer manager.**

For every id, the peers filed under it, each under the text of its address with its token and the
time it was filed.

* `TokenPeerManager.entry` — the two-level map read as one map from an id and an address.
* `TokenPeerManager.get_run_iff` — **what `get` returns after any history**: the token last set for
  that id and address, if no sweep has expired it since.
-/

import GoBt.Krpc.Addr
import GoBt.Lib.GoMap
import GoBt.Lib.Runs
import GoBt.Metainfo.Hash

namespace GoBt.Dht

open GoBt.Lib GoBt.Krpc GoBt.Metainfo

structure Peer where
  id : Hash
  addr : Addr
  token : GoString
  time : Time
  deriving DecidableEq

structure TokenPeerManager where
  peers : GoMap Hash (GoMap GoString Peer)

namespace TokenPeerManager

def newTokenPeerManager : TokenPeerManager := ⟨∅⟩

/-- `tpm.Set(id, addr, token)` at the time `now`. -/
def set (tpm : TokenPeerManager) (id : Hash) (addr : Addr) (token : GoString) (now : Time) :
    TokenPeerManager :=
  let peers := (tpm.peers.lookup id).getD ∅
  ⟨tpm.peers.insert id (peers.insert addr.string ⟨id, addr, token, now⟩)⟩

def get (tpm : TokenPeerManager) (id : Hash) (addr : Addr) : GoString :=
  match tpm.peers.lookup id with
  | some peers =>
      match peers.lookup addr.string with
      | some peer => peer.token
      | none => []
  | none => []

/-- One tick of `Start(interval)`: the expired peers go, then the ids without peers. -/
def sweep (tpm : TokenPeerManager) (now : Time) (interval : Duration) : TokenPeerManager :=
  ⟨GoMap.deleteIf (fun _ peers => peers.entries.length == 0)
    (GoMap.mapValues
      (fun _ peers => GoMap.deleteIf (fun _ peer => now.sub peer.time > interval) peers)
      tpm.peers)⟩

/-- The loop of `GetPeers` over the peers of an infohash. -/
def collect (ipv6 : Bool) : Int → List Peer → List GoString
  | _, [] => []
  | maxnum, peer :: rest =>
      if maxnum < 1 then []
      else if isIPv6 peer.addr.ip = ipv6 then peer.addr.string :: collect ipv6 (maxnum - 1) rest
      else collect ipv6 maxnum rest

def getPeers (tpm : TokenPeerManager) (order : GoMap.RangeOrder Peer) (infohash : Hash)
    (maxnum : Int)
    (ipv6 : Bool) : List GoString :=
  match tpm.peers.lookup infohash with
  | some peers => collect ipv6 maxnum (order.visit (GoMap.values peers))
  | none => []

/-! ### Histories -/

inductive Op
  | set (id : Hash) (addr : Addr) (token : GoString) (now : Time)
  | sweep (now : Time) (interval : Duration)
  deriving DecidableEq

def step (tpm : TokenPeerManager) : Op → TokenPeerManager
  | .set id addr token now => tpm.set id addr token now
  | .sweep now interval => tpm.sweep now interval

def entry (tpm : TokenPeerManager) (id : Hash) (key : GoString) : Option Peer :=
  (tpm.peers.lookup id).bind fun peers => peers.lookup key

/-- The operation files `peer` under the id and the address. -/
def Op.Files (id : Hash) (key : GoString) : Op → Peer → Prop
  | .set id' addr token now, peer => id' = id ∧ addr.string = key ∧ peer = ⟨id', addr, token, now⟩
  | .sweep _ _, _ => False

/-- The operation leaves `peer` under the id and the address: it files no other peer there and does
not expire this one. -/
def Op.Spares (id : Hash) (key : GoString) : Op → Peer → Prop
  | .set id' addr _ _, _ => ¬ (id' = id ∧ addr.string = key)
  | .sweep now interval, peer => now.sub peer.time ≤ interval

/-- In the history, the last token set for the id and the address is `token`, and it has not
expired. -/
def LastSet (ops : List Op) (id : Hash) (key token : GoString) : Prop :=
  ∃ before op after peer, ops = before ++ op :: after ∧ op.Files id key peer ∧ peer.token = token ∧
    ∀ later ∈ after, later.Spares id key peer

theorem entry_set (tpm : TokenPeerManager) (id id' : Hash) (addr : Addr) (token key : GoString)
    (now : Time) :
    (tpm.set id' addr token now).entry id key =
      if id' = id ∧ addr.string = key then some ⟨id', addr, token, now⟩ else tpm.entry id key := by
  unfold entry set
  rw [GoMap.lookup_insert]
  by_cases same : id = id'
  · subst same
    rw [if_pos rfl, Option.bind_some, GoMap.lookup_insert]
    by_cases sameKey : key = addr.string
    · subst sameKey
      simp
    · rw [if_neg sameKey, if_neg fun both => sameKey both.2.symm]
      cases tpm.peers.lookup id with
      | none => rfl
      | some peers => rfl
  · rw [if_neg same, if_neg fun both => same both.1.symm]

theorem entry_sweep (tpm : TokenPeerManager) (id : Hash) (key : GoString) (now : Time)
    (interval : Duration) :
    (tpm.sweep now interval).entry id key =
      (tpm.entry id key).filter fun peer => !decide (now.sub peer.time > interval) := by
  unfold entry sweep
  rw [GoMap.lookup_deleteIf, GoMap.lookup_mapValues]
  cases tpm.peers.lookup id with
  | none => rfl
  | some peers =>
    have kept := GoMap.lookup_deleteIf (fun _ peer => decide (now.sub peer.time > interval))
      peers key
    rw [Option.map_some, Option.bind_some, ← kept]
    generalize GoMap.deleteIf (fun _ peer => decide (now.sub peer.time > interval)) peers = left
    -- an id is deleted when no peer is left, and then it has no entry either way
    by_cases gone : left.entries = []
    · have absent : left.lookup key = none := by
        rw [AList.lookup_eq_none, AList.mem_keys, AList.keys, gone]
        exact List.not_mem_nil
      simp [Option.filter, gone, absent]
    · simp [Option.filter, gone]

theorem step_entry_iff (tpm : TokenPeerManager) (op : Op) (id : Hash) (key : GoString)
    (peer : Peer) :
    (tpm.step op).entry id key = some peer ↔
      op.Files id key peer ∨ (tpm.entry id key = some peer ∧ op.Spares id key peer) := by
  cases op with
  | set id' addr token now =>
    simp only [step, entry_set, Op.Files, Op.Spares]
    by_cases same : id' = id ∧ addr.string = key
    · simp [same, eq_comm]
    · rw [if_neg same]
      constructor
      · exact fun old => Or.inr ⟨old, same⟩
      · rintro (⟨sameId, sameKey, _⟩ | ⟨old, _⟩)
        · exact absurd ⟨sameId, sameKey⟩ same
        · exact old
  | sweep now interval => simp [step, entry_sweep, Op.Files, Op.Spares]

theorem get_eq (tpm : TokenPeerManager) (id : Hash) (addr : Addr) :
    tpm.get id addr = (tpm.entry id addr.string).elim [] Peer.token := by
  unfold get entry
  cases tpm.peers.lookup id with
  | none => rfl
  | some peers =>
    show (match peers.lookup addr.string with
      | some peer => peer.token
      | none => []) = (peers.lookup addr.string).elim [] Peer.token
    cases peers.lookup addr.string with
    | none => rfl
    | some peer => rfl

/-- **What is filed** after a history: what was filed last and spared since. -/
theorem entry_run_iff (ops : List Op) {id : Hash} {key : GoString} {peer : Peer} :
    (run step newTokenPeerManager ops).entry id key = some peer ↔
      ∃ before op after, ops = before ++ op :: after ∧ op.Files id key peer ∧
        ∀ later ∈ after, later.Spares id key peer :=
  last_write_of_none step (fun tpm => tpm.entry id key)
    (fun tpm op peer => step_entry_iff tpm op id key peer) rfl

theorem key_of_entry_run {ops : List Op} {id : Hash} {key : GoString} {peer : Peer}
    (filed : (run step newTokenPeerManager ops).entry id key = some peer) :
    peer.addr.string = key := by
  obtain ⟨_, op, _, _, files, _⟩ := (entry_run_iff ops).mp filed
  cases op with
  | set id' addr token now =>
    obtain ⟨_, sameKey, rfl⟩ := files
    exact sameKey
  | sweep now interval => exact files.elim

theorem get_run_iff (ops : List Op) (id : Hash) (addr : Addr) {token : GoString}
    (nonempty : token ≠ []) :
    (run step newTokenPeerManager ops).get id addr = token ↔ LastSet ops id addr.string token := by
  rw [get_eq]
  constructor
  · intro found
    cases current : (run step newTokenPeerManager ops).entry id addr.string with
    | none =>
      rw [current] at found
      exact absurd found.symm nonempty
    | some peer =>
      rw [current] at found
      obtain ⟨before, op, after, split, files, spared⟩ := (entry_run_iff ops).mp current
      exact ⟨before, op, after, peer, split, files, found, spared⟩
  · rintro ⟨before, op, after, peer, split, files, sameToken, spared⟩
    rw [(entry_run_iff ops).mpr ⟨before, op, after, split, files, spared⟩]
    exact sameToken

end TokenPeerManager

end GoBt.Dht
