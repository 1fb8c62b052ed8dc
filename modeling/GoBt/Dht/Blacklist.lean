/-
**The blacklist** (`dht/blacklist.go`).

The blacklist in memory keeps, for every IP it knows, the banned ports or the fact that the whole IP
is banned. Its purpose is a set of bans.

* `Blacklist` — the source's data, with `isIn`, `add` and `del`.
* `Bans` — the abstract set: a pair of an IP and a port, or a whole IP.
* `Represents` — how the data stand for a set; `Represents.isIn_iff`: then `isIn` is membership.
* `Stray bl op` — the operation deletes a port while another port is the only ban of the IP.
* **`isIn_agrees_iff`** — along a run, `isIn` is membership in every state exactly when no operation
  is stray. The limit on the number of IPs holds in any case.
* `del_lifts_other_port` — a stray deletion lifts the ban of the other port.

IPs are told apart by their text, as the map of the source does; IPs with one text are equal
(`Ip.equal_of_string_eq`).
-/

import GoBt.Krpc.Addr
import GoBt.Lib.GoMap
import GoBt.Lib.Runs
import Mathlib.Data.Finset.Image

namespace GoBt.Dht

open GoBt.Lib GoBt.Krpc

/-! ### The data -/

/-- The entry of an IP. The ports count if `enable` is set, else the whole IP is banned. `none` is the
nil map. -/
structure WrappedPort where
  time : Time
  enable : Bool
  ports : Option (Finset UInt16) := none
  deriving DecidableEq

structure Blacklist where
  num : Int
  ips : GoMap GoString WrappedPort

namespace WrappedPort

def portSet (wp : WrappedPort) : Finset UInt16 := wp.ports.getD ∅

/-- The lines of `Add` that change the entry. -/
def ban (wp : WrappedPort) (port : UInt16) (now : Time) : WrappedPort :=
  if port < 1 then { time := now, enable := false, ports := none }
  else { wp with time := now, ports := some (insert port wp.portSet) }

/-- The lines of `Del` that change the entry. -/
def lift (wp : WrappedPort) (port : UInt16) (now : Time) : WrappedPort :=
  { wp with time := now, ports := some (wp.portSet.erase port) }

end WrappedPort

namespace Blacklist

def newMemoryBlacklist (maxnum : Int) : Blacklist := ⟨maxnum, ∅⟩

/-- `bl.In(addr)`. -/
def isIn (bl : Blacklist) (addr : Addr) : Bool :=
  match bl.ips.lookup addr.ip.string with
  | some wp => if wp.enable then addr.port ∈ wp.portSet else true
  | none => false

/-- `bl.Add(addr)` at the time `now`. -/
def add (bl : Blacklist) (addr : Addr) (now : Time) : Blacklist :=
  let ip := addr.ip.string
  match bl.ips.lookup ip with
  | some wp => { bl with ips := bl.ips.insert ip (wp.ban addr.port now) }
  | none =>
      if 0 < bl.num ∧ bl.num ≤ bl.ips.entries.length then bl
      else
        let wp : WrappedPort := { time := 0, enable := true }
        { bl with ips := bl.ips.insert ip (wp.ban addr.port now) }

/-- `bl.Del(addr)` at the time `now`. -/
def del (bl : Blacklist) (addr : Addr) (now : Time) : Blacklist :=
  let ip := addr.ip.string
  match bl.ips.lookup ip with
  | some wp =>
      if addr.port < 1 then { bl with ips := bl.ips.erase ip }
      else if wp.enable then
        if wp.portSet.card ≤ 1 then { bl with ips := bl.ips.erase ip }
        else { bl with ips := bl.ips.insert ip (wp.lift addr.port now) }
      else bl
  | none => bl

inductive Op
  | add (addr : Addr) (now : Time)
  | del (addr : Addr) (now : Time)

def step (bl : Blacklist) : Op → Blacklist
  | .add addr now => bl.add addr now
  | .del addr now => bl.del addr now

end Blacklist

/-! ### The set of bans -/

inductive Ban
  | pair (ip : GoString) (port : UInt16)
  | whole (ip : GoString)
  deriving DecidableEq

def Ban.ip : Ban → GoString
  | .pair ip _ => ip
  | .whole ip => ip

abbrev Bans := Finset Ban

namespace Bans

def Covers (bans : Bans) (addr : Addr) : Prop :=
  .whole addr.ip.string ∈ bans ∨ .pair addr.ip.string addr.port ∈ bans

def ips (bans : Bans) : Finset GoString := bans.image Ban.ip

/-- Ban the pair, or the whole IP if the port is 0; a new IP is ignored if `maxnum` are there. -/
def add (maxnum : Int) (bans : Bans) (addr : Addr) : Bans :=
  if addr.ip.string ∉ bans.ips ∧ 0 < maxnum ∧ maxnum ≤ bans.ips.card then bans
  else insert (if addr.port = 0 then .whole addr.ip.string
    else .pair addr.ip.string addr.port) bans

/-- Lift the ban of the pair, or all bans of the IP if the port is 0. -/
def del (bans : Bans) (addr : Addr) : Bans :=
  if addr.port = 0 then bans.filter fun ban => ban.ip ≠ addr.ip.string
  else bans.erase (.pair addr.ip.string addr.port)

def step (maxnum : Int) (bans : Bans) : Blacklist.Op → Bans
  | .add addr _ => bans.add maxnum addr
  | .del addr _ => bans.del addr

theorem mem_ips {bans : Bans} {ip : GoString} :
    ip ∈ bans.ips ↔ .whole ip ∈ bans ∨ ∃ port, .pair ip port ∈ bans := by
  unfold ips
  rw [Finset.mem_image]
  constructor
  · rintro ⟨ban, member, rfl⟩
    cases ban with
    | pair ip port => exact .inr ⟨port, member⟩
    | whole ip => exact .inl member
  · rintro (member | ⟨port, member⟩)
    · exact ⟨_, member, rfl⟩
    · exact ⟨_, member, rfl⟩

end Bans

/-! ### The data stand for the set -/

namespace Blacklist

/-- What the bans of one IP are, by its entry. -/
def EntryBans (entry : Option WrappedPort) (ip : GoString) (bans : Bans) : Prop :=
  match entry with
  | none => ip ∉ bans.ips
  | some wp =>
      if wp.enable then
        .whole ip ∉ bans ∧ wp.portSet.Nonempty ∧ ∀ port, .pair ip port ∈ bans ↔ port ∈ wp.portSet
      else .whole ip ∈ bans

/-- The entries stand for the bans, and there are not too many. -/
structure Represents (maxnum : Int) (bl : Blacklist) (bans : Bans) : Prop where
  num : bl.num = maxnum
  entry : ∀ ip, EntryBans (bl.ips.lookup ip) ip bans
  few : 0 < maxnum → (bl.ips.entries.length : Int) ≤ maxnum

variable {maxnum : Int} {bl : Blacklist} {bans : Bans}

theorem entryBans_ports {wp : WrappedPort} {ip : GoString} (enable : wp.enable = true) :
    EntryBans (some wp) ip bans ↔ .whole ip ∉ bans ∧ wp.portSet.Nonempty ∧
      ∀ port, .pair ip port ∈ bans ↔ port ∈ wp.portSet := by
  simp only [EntryBans, enable, if_true]

theorem entryBans_whole {wp : WrappedPort} {ip : GoString} (enable : wp.enable = false) :
    EntryBans (some wp) ip bans ↔ .whole ip ∈ bans := by
  simp only [EntryBans, enable, Bool.false_eq_true, if_false]

theorem Represents.isIn_iff (rep : Represents maxnum bl bans) (addr : Addr) :
    bl.isIn addr = true ↔ bans.Covers addr := by
  have entry := rep.entry addr.ip.string
  unfold isIn Bans.Covers
  cases found : bl.ips.lookup addr.ip.string with
  | none =>
    rw [found] at entry
    have outside : addr.ip.string ∉ bans.ips := entry
    rw [Bans.mem_ips, not_or, not_exists] at outside
    simp [outside.1, outside.2]
  | some wp =>
    rw [found] at entry
    cases enable : wp.enable with
    | true =>
      obtain ⟨notWhole, _, ports⟩ := (entryBans_ports enable).mp entry
      simp [enable, notWhole, ports]
    | false =>
      simp [enable, (entryBans_whole enable).mp entry]

theorem Represents.mem_keys_iff (rep : Represents maxnum bl bans) (ip : GoString) :
    ip ∈ bl.ips.keys ↔ ip ∈ bans.ips := by
  have entry := rep.entry ip
  rw [← AList.mem_keys, ← AList.lookup_isSome]
  cases found : bl.ips.lookup ip with
  | none =>
    rw [found] at entry
    exact iff_of_false (by simp) entry
  | some wp =>
    rw [found] at entry
    refine iff_of_true rfl (Bans.mem_ips.mpr ?_)
    cases enable : wp.enable with
    | true =>
      obtain ⟨_, ⟨port, member⟩, ports⟩ := (entryBans_ports enable).mp entry
      exact .inr ⟨port, (ports port).mpr member⟩
    | false => exact .inl ((entryBans_whole enable).mp entry)

theorem Represents.length_eq (rep : Represents maxnum bl bans) :
    bl.ips.entries.length = bans.ips.card := by
  have same : bl.ips.keys.toFinset = bans.ips := by
    ext ip
    rw [List.mem_toFinset, rep.mem_keys_iff]
  rw [← same, List.toFinset_card_of_nodup bl.ips.keys_nodup]
  exact (List.length_map _).symm

theorem EntryBans.congr {entry : Option WrappedPort} {ip : GoString} {bans' : Bans}
    (same : ∀ ban : Ban, ban.ip = ip → (ban ∈ bans' ↔ ban ∈ bans)) (holds : EntryBans entry ip bans) :
    EntryBans entry ip bans' := by
  have whole := same (.whole ip) rfl
  have pair := fun port => same (.pair ip port) rfl
  unfold EntryBans at holds ⊢
  simp only [Bans.mem_ips, whole, pair] at holds ⊢
  exact holds

theorem Represents.update (rep : Represents maxnum bl bans) (ip : GoString) {bl' : Blacklist}
    {bans' : Bans} (num : bl'.num = bl.num)
    (others : ∀ ip', ip' ≠ ip → bl'.ips.lookup ip' = bl.ips.lookup ip')
    (same : ∀ ban : Ban, ban.ip ≠ ip → (ban ∈ bans' ↔ ban ∈ bans))
    (here : EntryBans (bl'.ips.lookup ip) ip bans')
    (few : 0 < maxnum → (bl'.ips.entries.length : Int) ≤ maxnum) : Represents maxnum bl' bans' := by
  refine ⟨num.trans rep.num, fun ip' => ?_, few⟩
  by_cases equal : ip' = ip
  · rw [equal]
    exact here
  · rw [others ip' equal]
    refine (rep.entry ip').congr fun ban isIp => same ban ?_
    rwa [isIp]

/-! ### The size of the map -/

theorem length_insert_of_mem {m : GoMap GoString WrappedPort} {ip : GoString} {wp : WrappedPort}
    {old : WrappedPort} (known : m.lookup ip = some old) :
    (m.insert ip wp).entries.length = m.entries.length := by
  have member : ip ∈ m := AList.lookup_isSome.mp (known ▸ rfl)
  obtain ⟨_, front, back, _, split, erased⟩ := List.exists_of_kerase member
  rw [AList.entries_insert, List.length_cons, erased, split]
  simp only [List.length_append, List.length_cons]
  omega

theorem length_insert_le (m : GoMap GoString WrappedPort) (ip : GoString) (wp : WrappedPort) :
    (m.insert ip wp).entries.length ≤ m.entries.length + 1 := by
  rw [AList.entries_insert, List.length_cons]
  exact Nat.succ_le_succ (List.kerase_sublist ip m.entries).length_le

theorem length_erase_le (m : GoMap GoString WrappedPort) (ip : GoString) :
    (m.erase ip).entries.length ≤ m.entries.length :=
  (List.kerase_sublist ip m.entries).length_le

/-! ### Steps -/

theorem port_lt_one (port : UInt16) : port < 1 ↔ port = 0 := by
  rw [UInt16.lt_iff_toNat_lt, ← UInt16.toNat_inj]
  exact Nat.lt_one_iff

theorem entryBans_ban {wp : WrappedPort} {addr : Addr} (now : Time)
    (before : wp.enable = true → .whole addr.ip.string ∉ bans ∧
      ∀ port, .pair addr.ip.string port ∈ bans ↔ port ∈ wp.portSet)
    (whole : wp.enable = false → .whole addr.ip.string ∈ bans) :
    EntryBans (some (wp.ban addr.port now)) addr.ip.string (insert
      (if addr.port = 0 then .whole addr.ip.string else .pair addr.ip.string addr.port) bans) := by
  unfold WrappedPort.ban
  by_cases zero : addr.port = 0
  · rw [if_pos ((port_lt_one _).mpr zero), if_pos zero]
    exact Finset.mem_insert_self _ _
  · rw [if_neg (mt (port_lt_one _).mp zero), if_neg zero]
    cases enable : wp.enable with
    | true =>
      obtain ⟨notWhole, ports⟩ := before enable
      refine (entryBans_ports rfl).mpr
        ⟨by simpa using notWhole, Finset.insert_nonempty _ _, fun port => ?_⟩
      show _ ↔ port ∈ insert addr.port wp.portSet
      rw [Finset.mem_insert, Finset.mem_insert, ports port]
      simp
    | false => exact (entryBans_whole rfl).mpr (Finset.mem_insert_of_mem (whole enable))

theorem Represents.add (rep : Represents maxnum bl bans) (addr : Addr) (now : Time) :
    Represents maxnum (bl.add addr now) (bans.add maxnum addr) := by
  have entry := rep.entry addr.ip.string
  have known := rep.mem_keys_iff addr.ip.string
  rw [← AList.mem_keys, ← AList.lookup_isSome] at known
  have same : ∀ ban : Ban, ban.ip ≠ addr.ip.string → (ban ∈ (insert
      (if addr.port = 0 then .whole addr.ip.string else .pair addr.ip.string addr.port) bans : Bans) ↔
        ban ∈ bans) := by
    intro ban other
    refine Finset.mem_insert.trans (or_iff_right ?_)
    rintro rfl
    split at other <;> exact other rfl
  unfold Blacklist.add Bans.add
  dsimp only
  cases found : bl.ips.lookup addr.ip.string with
  | none =>
    rw [found] at entry known
    have outside : addr.ip.string ∉ bans.ips := entry
    have free := outside
    rw [Bans.mem_ips, not_or, not_exists] at free
    dsimp only
    rw [rep.num, rep.length_eq]
    by_cases full : 0 < maxnum ∧ maxnum ≤ bans.ips.card
    · rw [if_pos full, if_pos ⟨outside, full⟩]
      exact rep
    · rw [if_neg full, if_neg fun all => full all.2]
      refine rep.update addr.ip.string rep.num.symm (fun ip' other => ?_) same ?_
        fun positive => ?_
      · exact AList.lookup_insert_ne other
      · dsimp only
        rw [AList.lookup_insert]
        refine entryBans_ban now (fun _ => ⟨free.1, fun port => ?_⟩) nofun
        exact iff_of_false (free.2 port) (Finset.notMem_empty port)
      · have more := length_insert_le bl.ips addr.ip.string
          (({ time := 0, enable := true } : WrappedPort).ban addr.port now)
        have size := rep.length_eq
        dsimp only
        omega
  | some wp =>
    rw [found] at entry known
    dsimp only
    rw [if_neg fun all => all.1 (known.mp rfl)]
    refine rep.update addr.ip.string rfl (fun ip' other => ?_) same ?_ fun positive => ?_
    · exact AList.lookup_insert_ne other
    · dsimp only
      rw [AList.lookup_insert]
      refine entryBans_ban now (fun enable => ?_) fun enable => ?_
      · obtain ⟨notWhole, _, ports⟩ := (entryBans_ports enable).mp entry
        exact ⟨notWhole, ports⟩
      · exact (entryBans_whole enable).mp entry
    · dsimp only
      rw [length_insert_of_mem found]
      exact rep.few positive

/-- A port is deleted while another port is the only ban of the IP. -/
def Stray (bl : Blacklist) : Op → Prop
  | .add _ _ => False
  | .del addr _ => addr.port ≠ 0 ∧ ∃ wp, bl.ips.lookup addr.ip.string = some wp ∧
      wp.enable = true ∧ wp.portSet.card ≤ 1 ∧ addr.port ∉ wp.portSet

theorem Represents.del (rep : Represents maxnum bl bans) (addr : Addr) (now : Time)
    (aimed : ¬ bl.Stray (.del addr now)) :
    Represents maxnum (bl.del addr now) (bans.del addr) := by
  have entry := rep.entry addr.ip.string
  have same : ∀ ban : Ban, ban.ip ≠ addr.ip.string → (ban ∈ bans.del addr ↔ ban ∈ bans) := by
    intro ban other
    unfold Bans.del
    split
    · rw [Finset.mem_filter, and_iff_left other]
    · refine Finset.mem_erase.trans (and_iff_right ?_)
      rintro rfl
      exact other rfl
  have less : bans.del addr ⊆ bans := by
    unfold Bans.del
    split
    · exact Finset.filter_subset _ _
    · exact Finset.erase_subset _ _
  unfold Blacklist.del
  dsimp only
  cases found : bl.ips.lookup addr.ip.string with
  | none =>
    rw [found] at entry
    refine rep.update addr.ip.string rfl (fun _ _ => rfl) same ?_ rep.few
    rw [found]
    exact fun inside => entry (Finset.image_subset_image less inside)
  | some wp =>
    rw [found] at entry
    dsimp only
    -- deleting the entry is right if no ban of the IP is left
    have erases : addr.ip.string ∉ (bans.del addr).ips →
        Represents maxnum { bl with ips := bl.ips.erase addr.ip.string } (bans.del addr) := by
      intro gone
      refine rep.update addr.ip.string rfl (fun ip' other => ?_) same ?_ fun positive => ?_
      · exact AList.lookup_erase_ne other
      · dsimp only
        rw [AList.lookup_erase]
        exact gone
      · have fewer := length_erase_le bl.ips addr.ip.string
        have few := rep.few positive
        dsimp only
        omega
    by_cases zero : addr.port = 0
    · rw [if_pos ((port_lt_one _).mpr zero)]
      refine erases ?_
      unfold Bans.del Bans.ips
      rw [if_pos zero]
      simp
    · rw [if_neg (mt (port_lt_one _).mp zero)]
      cases enable : wp.enable with
      | false =>
        rw [if_neg (by decide)]
        refine rep.update addr.ip.string rfl (fun _ _ => rfl) same ?_ rep.few
        rw [found, entryBans_whole enable, Bans.del, if_neg zero]
        exact Finset.mem_erase.mpr ⟨by simp, (entryBans_whole enable).mp entry⟩
      | true =>
        obtain ⟨notWhole, some', ports⟩ := (entryBans_ports enable).mp entry
        rw [if_pos rfl]
        by_cases small : wp.portSet.card ≤ 1
        · rw [if_pos small]
          refine erases ?_
          have inside : addr.port ∈ wp.portSet := by
            by_contra outside
            exact aimed ⟨zero, wp, found, enable, small, outside⟩
          have only := Finset.card_le_one.mp small
          rw [Bans.mem_ips, Bans.del, if_neg zero]
          rintro (whole | ⟨port, pair⟩)
          · exact notWhole (Finset.mem_of_mem_erase whole)
          · obtain ⟨other, pair⟩ := Finset.mem_erase.mp pair
            exact other (by rw [only port ((ports port).mp pair) _ inside])
        · rw [if_neg small]
          refine rep.update addr.ip.string rfl (fun ip' other => ?_) same ?_ fun positive => ?_
          · exact AList.lookup_insert_ne other
          · dsimp only
            have enable' : (wp.lift addr.port now).enable = true := enable
            have ports' : (wp.lift addr.port now).portSet = wp.portSet.erase addr.port := rfl
            rw [AList.lookup_insert, entryBans_ports enable', ports', Bans.del, if_neg zero]
            refine ⟨fun whole => notWhole (Finset.mem_of_mem_erase whole), ?_, fun port => ?_⟩
            · rw [← Finset.card_pos]
              have left := Finset.pred_card_le_card_erase (a := addr.port) (s := wp.portSet)
              omega
            · rw [Finset.mem_erase, Finset.mem_erase, ports port]
              simp
          · dsimp only
            rw [length_insert_of_mem found]
            exact rep.few positive

/-- **A stray deletion lifts a ban** that the set keeps. -/
theorem Represents.not_agrees_of_stray (rep : Represents maxnum bl bans) {op : Op}
    (stray : bl.Stray op) :
    ¬ ∀ addr, (bl.step op).isIn addr = true ↔ (bans.step maxnum op).Covers addr := by
  cases op with
  | add addr now => exact stray.elim
  | del addr now =>
    obtain ⟨some', wp, found, enable, small, outside⟩ := stray
    have entry := rep.entry addr.ip.string
    rw [found] at entry
    obtain ⟨_, ⟨port, member⟩, ports⟩ := (entryBans_ports enable).mp entry
    intro agrees
    have covered : (bans.del addr).Covers ⟨addr.ip, port⟩ := by
      refine .inr ?_
      rw [Bans.del, if_neg some']
      refine Finset.mem_erase.mpr ⟨?_, (ports port).mpr member⟩
      rintro same
      exact outside ((Ban.pair.inj same).2 ▸ member)
    have lifted : (bl.del addr now).isIn ⟨addr.ip, port⟩ = false := by
      have erased : bl.del addr now = { bl with ips := bl.ips.erase addr.ip.string } := by
        unfold Blacklist.del
        dsimp only
        rw [found]
        dsimp only
        rw [if_neg (mt (port_lt_one _).mp some'), if_pos enable, if_pos small]
      rw [erased, isIn, AList.lookup_erase]
    have still : (bl.del addr now).isIn ⟨addr.ip, port⟩ = true := (agrees _).mpr covered
    rw [lifted] at still
    cases still

theorem represents_new (maxnum : Int) : Represents maxnum (newMemoryBlacklist maxnum) ∅ := by
  refine ⟨rfl, fun ip => ?_, fun positive => positive.le⟩
  show ip ∉ Bans.ips ∅
  simp [Bans.ips]

/-- **The blacklist implements the set of bans exactly when no deletion is stray.** In every state
along the run, `In` is membership in the set, and the number of IPs is within the limit. -/
theorem isIn_agrees_iff (maxnum : Int) (ops : List Op) :
    (∀ before, before <+: ops →
        (∀ addr, (run step (newMemoryBlacklist maxnum) before).isIn addr = true ↔
          (run (Bans.step maxnum) ∅ before).Covers addr) ∧
        (0 < maxnum →
          ((run step (newMemoryBlacklist maxnum) before).ips.entries.length : Int) ≤ maxnum)) ↔
      ∀ point ∈ trace step (newMemoryBlacklist maxnum) ops, ¬ point.1.Stray point.2 := by
  refine prefix_agrees_iff_trace_meets step (Bans.step maxnum) (R := Represents maxnum)
    (G := fun bl op => ¬ bl.Stray op) (A := fun bl bans => (∀ addr, bl.isIn addr = true ↔ bans.Covers addr) ∧
      (0 < maxnum → (bl.ips.entries.length : Int) ≤ maxnum))
    (fun bl bans rep => ⟨rep.isIn_iff, rep.few⟩) ?_ ?_ (represents_new maxnum) ops
  · intro bl bans op rep aimed
    cases op with
    | add addr now => exact rep.add addr now
    | del addr now => exact rep.del addr now aimed
  · intro bl bans op rep stray agrees
    exact rep.not_agrees_of_stray (not_not.mp stray) agrees.1

/-- **Deleting one port lifts the ban of another**: after a ban of `1.1.1.1:80` and the deletion of
`1.1.1.1:81`, the first address is not in the blacklist, though the set still has it. -/
theorem del_lifts_other_port :
    let ops : List Op := [.add ⟨[1, 1, 1, 1], 80⟩ 0, .del ⟨[1, 1, 1, 1], 81⟩ 0]
    (run step (newMemoryBlacklist 0) ops).isIn ⟨[1, 1, 1, 1], 80⟩ = false ∧
      (run (Bans.step 0) ∅ ops).Covers ⟨[1, 1, 1, 1], 80⟩ := by
  refine ⟨by decide, .inr ?_⟩
  decide

end Blacklist

end GoBt.Dht
