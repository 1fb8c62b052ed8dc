/-
**The download of a torrent's metadata** (`downloader/torrent.go`).

* `step` — one round of the message loop of `download`, on what `ReadMsg` returned;
  `Status.panicked` is a run-time panic.
* `Runtime` — what the loop takes from elsewhere: the hash function, the decoders of the payloads,
  and the longest slice that can be made; `packageRuntime` has the decoders of `peerprotocol`.
* `step_panics_iff` — when a round panics.
* **`download_safe_iff`** — a run of the loop never panics exactly when every round stays clear of
  the two unguarded places, the size of the slice of pieces and the index into it.
-/

import GoBt.Lib.Blocks
import GoBt.Lib.Runs
import GoBt.Metainfo.Hash
import GoBt.PeerProtocol.ExtendedHandshake
import GoBt.PeerProtocol.Message
import GoBt.PeerProtocol.UtMetadata

namespace GoBt.Downloader

open GoBt.Bencode GoBt.Lib GoBt.Metainfo GoBt.PeerProtocol

/-! ### The downloader -/

def defaultBlockSize : UInt64 := 16384

/-- The configuration of a downloader, after `set`. -/
structure TorrentDownloader where
  blockSize : UInt64
  positive : blockSize ≠ 0
  /-- Whether `OnDHTNode` has set a callback. -/
  ondht : Bool := false

/-- `NewTorrentDownloader`; `conf.set` replaces a block size of zero. -/
def newTorrentDownloader (blockSize : UInt64) : TorrentDownloader :=
  if zero : blockSize = 0 then ⟨defaultBlockSize, by decide, false⟩ else ⟨blockSize, zero, false⟩

/-- What the loop takes from elsewhere. -/
structure Runtime where
  sha1 : List UInt8 → Hash
  decodeHandshake : List UInt8 → Except Fault ExtendedHandshakeMsg
  decodeUtMetadata : List UInt8 → Except Fault UtMetadataExtendedMsg
  /-- The longest `[][]byte` that `make` can make. -/
  maxPieces : Nat
  maxPieces_lt : maxPieces < 2 ^ 63

/-- What a decoder has filled in, if there is no fault. -/
def orFault {α : Type} : α × Option Fault → Except Fault α
  | (msg, none) => .ok msg
  | (_, some fault) => .error fault

/-- The payloads are decoded into zero messages by `Decode` and `DecodeFromPayload`. -/
def packageRuntime (net : NetIP) (sha1 : List UInt8 → Hash) {maxPieces : Nat}
    (limit : maxPieces < 2 ^ 63) : Runtime where
  sha1 := sha1
  decodeHandshake payload := orFault (decodeHandshake net {} payload)
  decodeUtMetadata payload := orFault (UtMetadataExtendedMsg.zero.decodeFromPayload payload)
  maxPieces := maxPieces
  maxPieces_lt := limit

/-- One download: the request and the connection. -/
structure Download where
  host : GoString
  port : UInt16
  infohash : Hash
  peerID : Hash
  remoteAddr : String

structure TorrentResponse where
  host : GoString
  port : UInt16
  peerID : Hash
  infoHash : Hash
  infoBytes : List UInt8
  deriving DecidableEq

/-- What the loop does besides reading. -/
inductive Effect
  | response (r : TorrentResponse)
  | dhtNode (host : GoString) (port : UInt16)
  | requestPieces (utMetadataID : UInt8) (piecesNum : Int)
  deriving DecidableEq

/-- The variables of the loop; `pieces` is `none` while the slice is nil. -/
structure Progress where
  pieces : Option (List (List UInt8)) := none
  piecesNum : Int := 0
  metadataSize : UInt64 := 0
  utmetadataID : UInt8 := 0
  deriving DecidableEq

/-- The errors that end the loop: those of `ReadMsg` and of the loop itself, and those of a decoder. -/
inductive DownloadError
  | go (err : GoError)
  | bencode (fault : Fault)
  deriving DecidableEq

inductive Status
  | reading (p : Progress)
  | returned (err : Option DownloadError)
  | panicked
  deriving DecidableEq

structure State where
  status : Status := .reading {}
  effects : List Effect := []
  deriving DecidableEq

/-- What a round starts with: `ReadMsg` fails, or it returns a message, and then the downloader may
have been closed. -/
inductive Read
  | failed (err : GoError)
  | message (msg : Message) (closed : Bool)

/-! ### The loop -/

section Loop

variable (env : Runtime) (d : TorrentDownloader) (dl : Download)

/-- The number of pieces that a handshake announces, as the loop computes it. -/
def piecesNumOf (metadataSize : UInt64) : Int :=
  let num := int64 (metadataSize / d.blockSize).toNat
  if metadataSize % d.blockSize ≠ 0 then int64 (num + 1) else num

/-- `make([][]byte, n)` does not panic. -/
def canMake (n : Int) : Prop := 0 ≤ n ∧ n ≤ env.maxPieces

instance (n : Int) : Decidable (canMake env n) := inferInstanceAs (Decidable (_ ∧ _))

def onHandshake (p : Progress) (payload : List UInt8) : Status × List Effect :=
  if 0 < p.utmetadataID then
    (.returned (some (.go (.other ("rehandshake from the peer '" ++ dl.remoteAddr ++ "'")))), [])
  else
    match env.decodeHandshake payload with
    | .error fault => (.returned (some (.bencode fault)), [])
    | .ok ehmsg =>
        let id := (ehmsg.messageIDs.lookup extendedMessageNameMetadata).getD 0
        if id = 0 then
          (.returned (some (.go (.other "the peer does not support \"ut_metadata\""))), [])
        else
          let num := piecesNumOf d ehmsg.metadataSize
          if canMake env num then
            (.reading
                { pieces := some (List.replicate num.toNat [])
                  piecesNum := num
                  metadataSize := ehmsg.metadataSize
                  utmetadataID := id },
              [.requestPieces id num])
          else (.panicked, [])

def wrongLength (p : Progress) (utmsg : UtMetadataExtendedMsg) : Prop :=
  let pieceLen : Int := utmsg.data.length
  (utmsg.piece ≠ p.piecesNum - 1 ∧ pieceLen ≠ int64 d.blockSize.toNat) ∨
    (utmsg.piece = p.piecesNum - 1 ∧ pieceLen ≠ int64 (p.metadataSize % d.blockSize).toNat)

instance (p : Progress) (utmsg : UtMetadataExtendedMsg) : Decidable (wrongLength d p utmsg) :=
  inferInstanceAs (Decidable (_ ∨ _))

/-- The end of a round that stored a piece. -/
def onStored (p : Progress) (pieces : List (List UInt8)) : Status × List Effect :=
  if pieces.all fun piece => piece.length ≠ 0 then
    let metadataInfo := pieces.flatten
    if dl.infohash = env.sha1 metadataInfo then
      (.returned none, [.response ⟨dl.host, dl.port, dl.peerID, dl.infohash, metadataInfo⟩])
    else (.returned none, [])
  else (.reading { p with pieces := some pieces }, [])

def onUtMetadata (p : Progress) (payload : List UInt8) : Status × List Effect :=
  match p.pieces with
  | none => (.returned none, [])
  | some pieces =>
      match env.decodeUtMetadata payload with
      | .error fault => (.returned (some (.bencode fault)), [])
      | .ok utmsg =>
          if utmsg.msgType ≠ utMetadataExtendedMsgTypeData then (.reading p, [])
          else if wrongLength d p utmsg then (.returned none, [])
          else if 0 ≤ utmsg.piece ∧ utmsg.piece < pieces.length then
            onStored env dl p (pieces.set utmsg.piece.toNat utmsg.data)
          else (.panicked, [])

def onMessage (p : Progress) (msg : Message) : Status × List Effect :=
  if msg.keepalive then (.reading p, [])
  else if msg.type = mTypeExtended then
    if msg.extendedID = extendedIDHandshake then onHandshake env d dl p msg.extendedPayload
    else if msg.extendedID = 1 then onUtMetadata env d dl p msg.extendedPayload
    else (.reading p, [])
  else if msg.type = mTypePort then
    (.reading p, if d.ondht then [.dhtNode dl.host msg.port] else [])
  else (.reading p, [])

def onRead (p : Progress) : Read → Status × List Effect
  | .failed err => (.returned (some (.go err)), [])
  | .message msg closed => if closed then (.returned none, []) else onMessage env d dl p msg

/-- One round of the loop, if it still runs. -/
def step (s : State) (read : Read) : State :=
  match s.status with
  | .reading p => ⟨(onRead env d dl p read).1, s.effects ++ (onRead env d dl p read).2⟩
  | _ => s

/-- `d.requestPieces(conn, id, piecesNum)`: the messages it sends, as long as sending succeeds. -/
def requestPieces (id : UInt8) (piecesNum : Int) : List (UInt8 × UtMetadataExtendedMsg) :=
  (List.range piecesNum.toNat).map fun (i : Nat) =>
    (id, { msgType := utMetadataExtendedMsgTypeRequest, piece := i })

/-! ### What every run keeps -/

/-- Once there is a slice of pieces, its length is the number of pieces that the handshake
announced. -/
structure Progress.Consistent (p : Progress) : Prop where
  made : ∀ pieces, p.pieces = some pieces →
    p.piecesNum = pieces.length ∧ p.piecesNum = piecesNumOf d p.metadataSize

def State.Consistent (s : State) : Prop :=
  ∀ p, s.status = .reading p → p.Consistent d

theorem onHandshake_reading {p p' : Progress} {payload : List UInt8}
    (goesOn : (onHandshake env d dl p payload).1 = .reading p') :
    ∃ ehmsg, env.decodeHandshake payload = .ok ehmsg ∧
      canMake env (piecesNumOf d ehmsg.metadataSize) ∧
      p' =
        { pieces := some (List.replicate (piecesNumOf d ehmsg.metadataSize).toNat [])
          piecesNum := piecesNumOf d ehmsg.metadataSize
          metadataSize := ehmsg.metadataSize
          utmetadataID := (ehmsg.messageIDs.lookup extendedMessageNameMetadata).getD 0 } := by
  unfold onHandshake at goesOn
  split at goesOn
  · cases goesOn
  · cases decoded : env.decodeHandshake payload with
    | error err =>
      rw [decoded] at goesOn
      cases goesOn
    | ok ehmsg =>
      rw [decoded] at goesOn
      dsimp only at goesOn
      split at goesOn
      · cases goesOn
      · split at goesOn
        · exact ⟨ehmsg, rfl, ‹_›, (Status.reading.inj goesOn).symm⟩
        · cases goesOn

theorem onUtMetadata_reading {p p' : Progress} {payload : List UInt8}
    (goesOn : (onUtMetadata env d dl p payload).1 = .reading p') :
    ∃ pieces pieces', p.pieces = some pieces ∧ pieces'.length = pieces.length ∧
      p' = { p with pieces := some pieces' } := by
  unfold onUtMetadata at goesOn
  cases made : p.pieces with
  | none =>
    rw [made] at goesOn
    cases goesOn
  | some pieces =>
    rw [made] at goesOn
    refine ⟨pieces, ?_⟩
    cases decoded : env.decodeUtMetadata payload with
    | error err =>
      rw [decoded] at goesOn
      cases goesOn
    | ok utmsg =>
      rw [decoded] at goesOn
      dsimp only at goesOn
      split at goesOn
      · refine ⟨pieces, rfl, rfl, ?_⟩
        rw [← made]
        exact (Status.reading.inj goesOn).symm
      · split at goesOn
        · cases goesOn
        · split at goesOn
          · unfold onStored at goesOn
            split at goesOn
            · dsimp only at goesOn
              split at goesOn <;> cases goesOn
            · exact ⟨_, rfl, List.length_set, (Status.reading.inj goesOn).symm⟩
          · cases goesOn

theorem onMessage_consistent {p p' : Progress} {msg : Message} (consistent : p.Consistent d)
    (goesOn : (onMessage env d dl p msg).1 = .reading p') : p'.Consistent d := by
  have same : ∀ {effects : List Effect}, ((Status.reading p, effects) : Status × List Effect).1 =
      .reading p' → p'.Consistent d := fun equal => Status.reading.inj equal ▸ consistent
  unfold onMessage at goesOn
  split at goesOn
  · exact same goesOn
  · split at goesOn
    · split at goesOn
      · obtain ⟨ehmsg, _, makes, rfl⟩ := onHandshake_reading env d dl goesOn
        refine ⟨fun pieces made => ⟨?_, rfl⟩⟩
        rw [← Option.some.inj made, List.length_replicate]
        exact (Int.toNat_of_nonneg makes.1).symm
      · split at goesOn
        · obtain ⟨pieces, pieces', made, length, rfl⟩ := onUtMetadata_reading env d dl goesOn
          obtain ⟨counted, announced⟩ := consistent.made pieces made
          refine ⟨fun pieces made => ⟨?_, announced⟩⟩
          rw [← Option.some.inj made, length]
          exact counted
        · exact same goesOn
    · split at goesOn <;> exact same goesOn

theorem step_reading {s : State} {p : Progress} (reading : s.status = .reading p) (read : Read) :
    step env d dl s read =
      ⟨(onRead env d dl p read).1, s.effects ++ (onRead env d dl p read).2⟩ := by
  simp only [step, reading]

theorem step_ended {s : State} (ended : ∀ p, s.status ≠ .reading p) (read : Read) :
    step env d dl s read = s := by
  cases status : s.status with
  | reading p => exact absurd status (ended p)
  | returned err | panicked => simp only [step, status]

theorem step_consistent (s : State) (read : Read) (consistent : s.Consistent d) :
    (step env d dl s read).Consistent d := by
  intro p' goesOn
  by_cases ended : ∀ p, s.status ≠ .reading p
  · rw [step_ended env d dl ended] at goesOn
    exact consistent p' goesOn
  · obtain ⟨p, reading⟩ := not_forall_not.mp ended
    rw [step_reading env d dl reading] at goesOn
    cases read with
    | failed err => cases goesOn
    | message msg closed =>
      cases closed with
      | true => cases goesOn
      | false => exact onMessage_consistent env d dl (consistent p reading) goesOn

/-! ### The number of pieces -/

theorem blockSize_pos : 0 < d.blockSize.toNat := by
  refine Nat.pos_of_ne_zero fun zero => d.positive ?_
  exact UInt64.toNat_inj.mp zero

theorem piecesNumOf_eq (metadataSize : UInt64) :
    piecesNumOf d metadataSize = int64 (blockCount metadataSize.toNat d.blockSize.toNat) := by
  have nonzero : metadataSize % d.blockSize ≠ 0 ↔
      metadataSize.toNat % d.blockSize.toNat ≠ 0 := by
    rw [← UInt64.toNat_mod, Ne, ← UInt64.toNat_inj]
    rfl
  unfold piecesNumOf
  rw [blockCount_eq _ _ (blockSize_pos d)]
  simp only [UInt64.toNat_div, nonzero]
  split
  · rw [int64_add_int64, Nat.cast_add, Nat.cast_one]
  · rfl

theorem blockCount_lt (metadataSize : UInt64) :
    blockCount metadataSize.toNat d.blockSize.toNat < 2 ^ 64 := by
  have bound : blockCount metadataSize.toNat d.blockSize.toNat ≤ metadataSize.toNat := by
    rw [blockCount_le_iff (blockSize_pos d)]
    exact Nat.le_mul_of_pos_right _ (blockSize_pos d)
  exact bound.trans_lt metadataSize.toNat_lt

/-- **When the slice of pieces can be made**: the announced size is not too large. -/
theorem canMake_piecesNumOf_iff (metadataSize : UInt64) :
    canMake env (piecesNumOf d metadataSize) ↔
      metadataSize.toNat ≤ env.maxPieces * d.blockSize.toNat := by
  have limit := env.maxPieces_lt
  have bound := blockCount_lt d metadataSize
  rw [← blockCount_le_iff (blockSize_pos d), piecesNumOf_eq, int64_of_nat bound, canMake]
  split <;> omega

theorem piecesNumOf_eq_zero_iff (metadataSize : UInt64) :
    piecesNumOf d metadataSize = 0 ↔ metadataSize = 0 := by
  have bound := blockCount_lt d metadataSize
  have empty : blockCount metadataSize.toNat d.blockSize.toNat ≤ 0 ↔ metadataSize = 0 := by
    rw [blockCount_le_iff (blockSize_pos d), Nat.zero_mul, Nat.le_zero, ← UInt64.toNat_inj]
    rfl
  rw [← empty, piecesNumOf_eq, int64_of_nat bound]
  split <;> omega

/-! ### Panics -/

/-- The handshake announces no more than the longest slice of pieces can hold. -/
def HandshakeFits (payload : List UInt8) : Prop :=
  ∀ ehmsg, env.decodeHandshake payload = .ok ehmsg →
    (ehmsg.messageIDs.lookup extendedMessageNameMetadata).getD 0 ≠ 0 →
      ehmsg.metadataSize.toNat ≤ env.maxPieces * d.blockSize.toNat

/-- A data message with the length of a block for a piece that does not exist; without metadata, an
empty data message for the piece -1. -/
def Stray (p : Progress) (utmsg : UtMetadataExtendedMsg) : Prop :=
  utmsg.msgType = utMetadataExtendedMsgTypeData ∧
    ¬ (0 ≤ utmsg.piece ∧ utmsg.piece < p.piecesNum) ∧
    (utmsg.data.length : Int) =
      if p.metadataSize = 0 ∧ utmsg.piece = -1 then 0 else int64 d.blockSize.toNat

/-- The round stays clear of the two unguarded places. -/
def Guarded (s : State) (read : Read) : Prop :=
  ∀ p msg, s.status = .reading p → read = .message msg false → msg.keepalive = false →
    msg.type = mTypeExtended →
      (msg.extendedID = extendedIDHandshake → p.utmetadataID = 0 →
        HandshakeFits env d msg.extendedPayload) ∧
      (msg.extendedID = 1 → p.pieces ≠ none → ∀ utmsg,
        env.decodeUtMetadata msg.extendedPayload = .ok utmsg → ¬ Stray d p utmsg)

theorem onHandshake_panics_iff (p : Progress) (payload : List UInt8) :
    (onHandshake env d dl p payload).1 = .panicked ↔
      ¬ (p.utmetadataID = 0 → HandshakeFits env d payload) := by
  unfold onHandshake HandshakeFits
  by_cases again : 0 < p.utmetadataID
  · have set : p.utmetadataID ≠ 0 := fun zero => by
      rw [zero] at again
      exact absurd again (by decide)
    rw [if_pos again]
    simp [set]
  · have unset : p.utmetadataID = 0 := by
      by_contra set
      exact again (UInt8.pos_iff_ne_zero.mpr set)
    rw [if_neg again]
    cases decoded : env.decodeHandshake payload with
    | error err => simp
    | ok ehmsg =>
      by_cases supported : (ehmsg.messageIDs.lookup extendedMessageNameMetadata).getD 0 = 0
      · simp [supported]
      · dsimp only
        rw [if_neg supported]
        simp only [canMake_piecesNumOf_iff]
        split <;> simp_all

/-- **The test on the length lets exactly the stray messages through to a panic.** -/
theorem stray_iff {p : Progress} (consistent : p.Consistent d) {pieces : List (List UInt8)}
    (made : p.pieces = some pieces) (utmsg : UtMetadataExtendedMsg) :
    Stray d p utmsg ↔ utmsg.msgType = utMetadataExtendedMsgTypeData ∧ ¬ wrongLength d p utmsg ∧
      ¬ (0 ≤ utmsg.piece ∧ utmsg.piece < pieces.length) := by
  obtain ⟨counted, announced⟩ := consistent.made pieces made
  have empty : p.metadataSize = 0 ↔ p.piecesNum = 0 := by
    rw [announced, piecesNumOf_eq_zero_iff]
  unfold Stray wrongLength
  rw [← counted]
  refine and_congr_right fun _ => ?_
  rw [and_comm]
  refine and_congr_left fun outside => ?_
  by_cases last : utmsg.piece = p.piecesNum - 1
  · -- Only the piece before the first of none is the last one and out of range.
    have noPieces : p.piecesNum = 0 := by omega
    have before : utmsg.piece = -1 := by omega
    have noData : p.metadataSize % d.blockSize = 0 := by
      rw [empty.mpr noPieces, UInt64.zero_mod]
    simp [noPieces, before, empty, noData, int64]
  · have other : ¬ (p.metadataSize = 0 ∧ utmsg.piece = -1) := by
      rw [empty]
      omega
    simp [last, other]

theorem onUtMetadata_panics_iff {p : Progress} (consistent : p.Consistent d)
    (payload : List UInt8) :
    (onUtMetadata env d dl p payload).1 = .panicked ↔
      ¬ (p.pieces ≠ none → ∀ utmsg, env.decodeUtMetadata payload = .ok utmsg →
        ¬ Stray d p utmsg) := by
  unfold onUtMetadata
  cases made : p.pieces with
  | none => simp
  | some pieces =>
    cases decoded : env.decodeUtMetadata payload with
    | error err => simp
    | ok utmsg =>
      have stray := stray_iff d consistent made utmsg
      have stores : ∀ pieces', (onStored env dl p pieces').1 ≠ .panicked := by
        intro pieces'
        unfold onStored
        split
        · dsimp only
          split <;> nofun
        · nofun
      by_cases data : utmsg.msgType = utMetadataExtendedMsgTypeData
      · by_cases wrong : wrongLength d p utmsg
        · simp [data, wrong, stray]
        · by_cases inside : 0 ≤ utmsg.piece ∧ utmsg.piece < pieces.length
          · simp [data, wrong, inside, stray, stores]
          · simp [data, wrong, inside, stray]
      · simp [data, stray]

theorem onMessage_panics_iff {p : Progress} (consistent : p.Consistent d) (msg : Message) :
    (onMessage env d dl p msg).1 = .panicked ↔
      ¬ (msg.keepalive = false → msg.type = mTypeExtended →
        (msg.extendedID = extendedIDHandshake → p.utmetadataID = 0 →
          HandshakeFits env d msg.extendedPayload) ∧
        (msg.extendedID = 1 → p.pieces ≠ none → ∀ utmsg,
          env.decodeUtMetadata msg.extendedPayload = .ok utmsg → ¬ Stray d p utmsg)) := by
  have ids : extendedIDHandshake ≠ 1 := by decide
  unfold onMessage
  by_cases keepalive : msg.keepalive = true
  · simp [keepalive]
  · have live : msg.keepalive = false := eq_false_of_ne_true keepalive
    by_cases extended : msg.type = mTypeExtended
    · by_cases handshake : msg.extendedID = extendedIDHandshake
      · rw [if_neg keepalive, if_pos extended, if_pos handshake, onHandshake_panics_iff]
        simp [live, extended, handshake, ids]
      · rw [if_neg keepalive, if_pos extended, if_neg handshake]
        by_cases utMetadata : msg.extendedID = 1
        · rw [if_pos utMetadata, onUtMetadata_panics_iff env d dl consistent]
          simp [live, extended, utMetadata, ids.symm]
        · rw [if_neg utMetadata]
          simp [handshake, utMetadata]
    · rw [if_neg keepalive, if_neg extended]
      split <;> simp [extended]

theorem step_panics_iff {s : State} (consistent : s.Consistent d) (running : s.status ≠ .panicked)
    (read : Read) : (step env d dl s read).status = .panicked ↔ ¬ Guarded env d s read := by
  by_cases ended : ∀ p, s.status ≠ .reading p
  · rw [step_ended env d dl ended]
    exact iff_of_false running fun unguarded =>
      unguarded fun p _ reading => absurd reading (ended p)
  · obtain ⟨p, reading⟩ := not_forall_not.mp ended
    rw [step_reading env d dl reading]
    cases read with
    | failed err => exact iff_of_false nofun fun unguarded => unguarded nofun
    | message msg closed =>
      cases closed with
      | true => exact iff_of_false nofun fun unguarded => unguarded fun _ _ _ same => nomatch same
      | false =>
        show (onMessage env d dl p msg).1 = .panicked ↔ _
        rw [onMessage_panics_iff env d dl (consistent p reading), not_iff_not]
        constructor
        · intro guarded p' msg' reading' same
          obtain rfl := Status.reading.inj (reading.symm.trans reading')
          obtain rfl := (Read.message.inj same).1
          exact guarded
        · exact fun guarded => guarded p msg reading rfl

/-- **When the download is crash-free.** Whatever the peer sends, no state that the loop reaches is
a panic exactly when every round stays clear of the two unguarded places. -/
theorem download_safe_iff (reads : List Read) :
    (∀ before, before <+: reads → (run (step env d dl) {} before).status ≠ .panicked) ↔
      ∀ point ∈ trace (step env d dl) {} reads, Guarded env d point.1 point.2 := by
  have initial : ({} : State).Consistent d := by
    intro p reading
    refine ⟨fun pieces made => ?_⟩
    rw [← Status.reading.inj reading] at made
    cases made
  have start : ({} : State).Consistent d ∧ ({} : State).status ≠ .panicked := ⟨initial, nofun⟩
  have rule := prefix_holds_iff_trace_meets (step env d dl)
    (P := fun s => s.Consistent d ∧ s.status ≠ .panicked) (G := Guarded env d)
    (fun s read holds guarded => ⟨step_consistent env d dl s read holds.1, fun panics =>
      (step_panics_iff env d dl holds.1 holds.2 read).mp panics guarded⟩)
    (fun s read holds unguarded still => still.2
      ((step_panics_iff env d dl holds.1 holds.2 read).mpr unguarded))
    start reads
  rw [← rule]
  refine forall₂_congr fun before _ => ?_
  rw [and_iff_right (run_holds (step env d dl) (step_consistent env d dl) initial before)]

end Loop

/-! ### A small run -/

def smallDownloader : TorrentDownloader := ⟨2, by decide, false⟩

def sampleDownload : Download := ⟨str "10.0.0.1", 6881, Hash.fill 1, Hash.fill 2, "10.0.0.1:6881"⟩

def extendedMsg (id : UInt8) (payload : List UInt8) : Message :=
  { type := mTypeExtended, extendedID := id, extendedPayload := payload }

/-- A hash function for which the metadata is what was asked for, and no address. -/
def sampleRuntime : Runtime :=
  packageRuntime ⟨fun _ => .error (str "invalid IP address")⟩ (fun _ => Hash.fill 1)
    (show 2 ^ 40 < 2 ^ 63 by decide)

/-- **A peer crashes the downloader**: it announces three bytes, that is two pieces, and sends a
block as piece 5. -/
theorem stray_piece_panics :
    let handshake := str "d1:md11:ut_metadatai3ee13:metadata_sizei3ee"
    let data := str "d8:msg_typei1e5:piecei5e10:total_sizei3ee" ++ [1, 2]
    (run (step sampleRuntime smallDownloader sampleDownload) {}
      [.message (extendedMsg 0 handshake) false, .message (extendedMsg 1 data) false]).status =
        .panicked := by
  decide +kernel

end GoBt.Downloader
