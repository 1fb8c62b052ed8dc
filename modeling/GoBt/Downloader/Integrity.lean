/-
**What the download of metadata delivers**, whatever the peer sends.

* `Round` — what one round of the loop can do.
* `Integral` — the invariant: while the loop goes on, nothing is delivered, and the pieces are
  requested once if a handshake was accepted.
* **`download_integrity`** — the pieces are requested at most once, and at most one response is
  delivered, with the requested hash.
-/

import GoBt.Downloader.Completeness

namespace GoBt.Downloader

open GoBt.Lib GoBt.Metainfo GoBt.PeerProtocol

section Integrity

variable (env : Runtime) (d : TorrentDownloader) (dl : Download)

def requests (effects : List Effect) : Nat :=
  effects.countP fun effect => match effect with
    | .requestPieces _ _ => true
    | _ => false

theorem requests_append (first second : List Effect) :
    requests (first ++ second) = requests first + requests second :=
  List.countP_append

/-- What a round can do: go on as before, end, accept the first handshake, or store a piece. -/
inductive Round (p : Progress) : Status × List Effect → Prop
  | goesOn (effects : List Effect) (quiet : responses effects = [] ∧ requests effects = 0) :
      Round p (.reading p, effects)
  | ends (status : Status) (ended : ∀ p', status ≠ .reading p') : Round p (status, [])
  | handshake {p' : Progress} (first : ¬ 0 < p.utmetadataID) (accepted : p'.utmetadataID ≠ 0)
      (id : UInt8) (num : Int) : Round p (.reading p', [.requestPieces id num])
  | data (pieces : List (List UInt8)) : Round p (onStored env dl p pieces)

theorem round_onHandshake (p : Progress) (payload : List UInt8) :
    Round env dl p (onHandshake env d dl p payload) := by
  unfold onHandshake
  split
  · exact .ends _ nofun
  · cases env.decodeHandshake payload with
    | error err => exact .ends _ nofun
    | ok ehmsg =>
      dsimp only
      split
      · exact .ends _ nofun
      · split
        · exact .handshake ‹_› ‹_› _ _
        · exact .ends _ nofun

theorem round_onUtMetadata (p : Progress) (payload : List UInt8) :
    Round env dl p (onUtMetadata env d dl p payload) := by
  unfold onUtMetadata
  cases p.pieces with
  | none => exact .ends _ nofun
  | some pieces =>
    cases env.decodeUtMetadata payload with
    | error err => exact .ends _ nofun
    | ok utmsg =>
      dsimp only
      split
      · exact .goesOn [] ⟨rfl, rfl⟩
      · split
        · exact .ends _ nofun
        · split
          · exact .data _
          · exact .ends _ nofun

theorem round_onRead (p : Progress) (read : Read) :
    Round env dl p (onRead env d dl p read) := by
  cases read with
  | failed err => exact .ends _ nofun
  | message msg closed =>
    have quiet : Round env dl p (.reading p, []) := .goesOn [] ⟨rfl, rfl⟩
    show Round env dl p (if closed then _ else onMessage env d dl p msg)
    unfold onMessage
    split
    · exact .ends _ nofun
    · split
      · exact quiet
      · split
        · split
          · exact round_onHandshake env d dl p _
          · split
            · exact round_onUtMetadata env d dl p _
            · exact quiet
        · split
          · refine .goesOn _ ?_
            split <;> exact ⟨rfl, rfl⟩
          · exact quiet

/-- The response is for the request, and its bytes have the requested hash. -/
def Genuine (r : TorrentResponse) : Prop :=
  r = ⟨dl.host, dl.port, dl.peerID, dl.infohash, r.infoBytes⟩ ∧ env.sha1 r.infoBytes = dl.infohash

/-- What holds at any time. -/
structure Integral (s : State) : Prop where
  reading : ∀ p, s.status = .reading p → responses s.effects = [] ∧
    requests s.effects = if 0 < p.utmetadataID then 1 else 0
  requested : requests s.effects ≤ 1
  once : (responses s.effects).length ≤ 1
  delivered : ∀ r ∈ responses s.effects, s.status = .returned none ∧ Genuine env dl r

theorem Integral.of_ended {s : State} (quiet : responses s.effects = [])
    (requested : requests s.effects ≤ 1) (ended : ∀ p, s.status ≠ .reading p) :
    Integral env dl s := by
  refine ⟨fun p same => absurd same (ended p), requested, ?_, ?_⟩
  · rw [quiet]
    exact Nat.zero_le 1
  · rw [quiet]
    nofun

theorem Integral.of_reading {s : State} {p : Progress} (isReading : s.status = .reading p)
    (quiet : responses s.effects = [])
    (requested : requests s.effects = if 0 < p.utmetadataID then 1 else 0) : Integral env dl s := by
  refine ⟨fun p' same => ?_, ?_, ?_, ?_⟩
  · obtain rfl := Status.reading.inj (isReading.symm.trans same)
    exact ⟨quiet, requested⟩
  · rw [requested]
    split <;> omega
  · rw [quiet]
    exact Nat.zero_le 1
  · rw [quiet]
    nofun

theorem step_integral (s : State) (read : Read) (integral : Integral env dl s) :
    Integral env dl (step env d dl s read) := by
  by_cases ended : ∀ p, s.status ≠ .reading p
  · rwa [step_ended env d dl ended]
  obtain ⟨p, isReading⟩ := not_forall_not.mp ended
  obtain ⟨quiet, requested⟩ := integral.reading p isReading
  rw [step_reading env d dl isReading]
  have round := round_onRead env d dl p read
  generalize onRead env d dl p read = result at round
  cases round with
  | goesOn effects nothing =>
    refine .of_reading env dl rfl ?_ ?_
    · rw [responses_append, quiet, nothing.1, List.nil_append]
    · rw [requests_append, nothing.2, requested, Nat.add_zero]
  | ends status finished =>
    rw [List.append_nil]
    exact .of_ended env dl quiet integral.requested finished
  | @handshake p' first accepted id num =>
    refine .of_reading env dl rfl ?_ ?_
    · rw [responses_append, quiet]
      rfl
    · rw [requests_append, requested, if_neg first, if_pos (UInt8.pos_iff_ne_zero.mpr accepted)]
      rfl
  | data pieces =>
    unfold onStored
    split
    · dsimp only
      split
      · refine ⟨nofun, ?_, ?_, ?_⟩
        · rw [requests_append]
          exact integral.requested
        · rw [responses_append, quiet]
          exact le_rfl
        · rw [responses_append, quiet]
          intro r member
          obtain rfl := List.mem_singleton.mp member
          exact ⟨rfl, rfl, Eq.symm ‹_›⟩
      · rw [List.append_nil]
        exact .of_ended env dl quiet integral.requested nofun
    · rw [List.append_nil]
      exact .of_reading env dl rfl quiet requested

/-- **The integrity of a download.** Whatever the peer sends, the pieces are requested at most once
and at most one response is delivered. The loop has returned without an error then; the response is
for the request, and its bytes have the requested hash. -/
theorem download_integrity (reads : List Read) :
    let s := run (step env d dl) {} reads
    requests s.effects ≤ 1 ∧ (responses s.effects).length ≤ 1 ∧
      ∀ r ∈ responses s.effects, s.status = .returned none ∧
        env.sha1 r.infoBytes = dl.infohash ∧
        r = ⟨dl.host, dl.port, dl.peerID, dl.infohash, r.infoBytes⟩ := by
  have start : Integral env dl {} := .of_reading env dl rfl rfl rfl
  obtain ⟨_, requested, once, delivered⟩ := run_holds _ (step_integral env d dl) start reads
  refine ⟨requested, once, fun r member => ?_⟩
  obtain ⟨returned, forRequest, hash⟩ := delivered r member
  exact ⟨returned, hash, forRequest⟩

end Integrity

end GoBt.Downloader
