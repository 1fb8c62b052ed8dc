/-
**The download of metadata from an honest peer.**

The peer announces the metadata and sends each requested block, in any order, between messages that
the loop ignores. The loop reads the bytes of its messages by `ReadMsg`.

* `Honest` — the messages of such a peer. `Frame`: the bytes of a message.
* `readsFrom` — what the rounds of the loop read. `readsFrom_frames`: the longest front of the frames
  that `ReadMsg` accepts, and then an error.
* `Collecting` — the state after the blocks in `got` have arrived. `step_data`: one more arrives.
* `wrongLength_iff` — the test on the length of a piece rejects exactly the last block of metadata
  that the block size divides.
* **`metadata_delivered_iff`** — the loop delivers the metadata exactly if the block size does not
  divide its length and every block arrives before a message that `ReadMsg` refuses.
-/

import GoBt.Downloader.Torrent
import GoBt.PeerProtocol.ServerLoop

namespace GoBt.Downloader

open GoBt.Lib GoBt.Metainfo GoBt.PeerProtocol

section Honest

variable (env : Runtime) (d : TorrentDownloader) (dl : Download) (M : List UInt8)

/-! ### An honest peer -/

def Noise (msg : Message) : Prop :=
  msg.keepalive = true ∨ msg.type ≠ mTypeExtended ∨
    (msg.extendedID ≠ extendedIDHandshake ∧ msg.extendedID ≠ 1)

/-- An extended message with this id. -/
structure Extended (id : UInt8) (msg : Message) : Prop where
  live : msg.keepalive = false
  type : msg.type = mTypeExtended
  extendedID : msg.extendedID = id

def IsHandshake (msg : Message) : Prop :=
  Extended extendedIDHandshake msg ∧ ∃ ehmsg, env.decodeHandshake msg.extendedPayload = .ok ehmsg ∧
    (ehmsg.messageIDs.lookup extendedMessageNameMetadata).getD 0 ≠ 0 ∧
    ehmsg.metadataSize.toNat = M.length

/-- A "ut_metadata" message that carries no data. -/
def IsOther (msg : Message) : Prop :=
  Extended 1 msg ∧ ∃ utmsg, env.decodeUtMetadata msg.extendedPayload = .ok utmsg ∧
    utmsg.msgType ≠ utMetadataExtendedMsgTypeData

/-- The data message for the piece `i`. -/
def IsData (i : Nat) (msg : Message) : Prop :=
  Extended 1 msg ∧ ∃ utmsg, env.decodeUtMetadata msg.extendedPayload = .ok utmsg ∧
    utmsg.msgType = utMetadataExtendedMsgTypeData ∧ utmsg.piece = i ∧
    utmsg.data = block M d.blockSize.toNat i

def pieceCount : Nat := blockCount M.length d.blockSize.toNat

/-- What an honest peer sends: noise, the handshake, and then, between noise, an answer to each of
the requests. -/
structure Honest (before : List Message) (handshake : Message) (after : List Message) : Prop where
  noise : ∀ msg ∈ before, Noise msg
  announces : IsHandshake env M handshake
  harmless : ∀ msg ∈ after,
    Noise msg ∨ IsOther env msg ∨ ∃ i < pieceCount d M, IsData env d M i msg
  answers : ∀ id, ∀ request ∈ requestPieces id (pieceCount d M),
    ∃ msg ∈ after, IsData env d M request.2.piece.toNat msg

def responses (effects : List Effect) : List TorrentResponse :=
  effects.filterMap fun
    | .response r => some r
    | _ => none

def delivered : TorrentResponse := ⟨dl.host, dl.port, dl.peerID, dl.infohash, M⟩

/-! ### Messages that are ignored -/

theorem onMessage_noise (p : Progress) {msg : Message} (noise : Noise msg) :
    (onMessage env d dl p msg).1 = .reading p ∧ responses (onMessage env d dl p msg).2 = [] := by
  unfold onMessage
  split
  · exact ⟨rfl, rfl⟩
  · rename_i live
    split
    · rename_i extended
      rcases noise with keepalive | other | ⟨notHandshake, notMetadata⟩
      · exact absurd keepalive live
      · exact absurd extended other
      · rw [if_neg notHandshake, if_neg notMetadata]
        exact ⟨rfl, rfl⟩
    · split
      · split <;> exact ⟨rfl, rfl⟩
      · exact ⟨rfl, rfl⟩

theorem onMessage_extended {id : UInt8} {msg : Message} (p : Progress)
    (extended : Extended id msg) :
    onMessage env d dl p msg =
      if id = extendedIDHandshake then onHandshake env d dl p msg.extendedPayload
      else if id = 1 then onUtMetadata env d dl p msg.extendedPayload
      else (.reading p, []) := by
  unfold onMessage
  rw [extended.live, if_neg nofun, if_pos extended.type, extended.extendedID]

theorem onMessage_other {p : Progress} {msg : Message} (other : IsOther env msg)
    (made : p.pieces ≠ none) :
    (onMessage env d dl p msg).1 = .reading p ∧ responses (onMessage env d dl p msg).2 = [] := by
  obtain ⟨extended, utmsg, decoded, notData⟩ := other
  obtain ⟨pieces, made⟩ := Option.ne_none_iff_exists'.mp made
  rw [onMessage_extended env d dl p extended, if_neg (by decide), if_pos rfl]
  unfold onUtMetadata
  simp only [made, decoded, if_pos notData, true_and]
  rfl

/-! ### Blocks that arrive -/

/-- The variables of the loop after the blocks in `got` have arrived. -/
def collecting (id : UInt8) (size : UInt64) (got : List Nat) : Progress where
  pieces := some (slots (block M d.blockSize.toNat) (pieceCount d M) got)
  piecesNum := pieceCount d M
  metadataSize := size
  utmetadataID := id

theorem onStored_collecting (infohash : dl.infohash = env.sha1 M) (id : UInt8) (size : UInt64)
    (got got' : List Nat) :
    onStored env dl (collecting d M id size got)
        (slots (block M d.blockSize.toNat) (pieceCount d M) got') =
      if ∀ i < pieceCount d M, i ∈ got' then (.returned none, [.response (delivered dl M)])
      else (.reading (collecting d M id size got'), []) := by
  have filled : ∀ i < pieceCount d M, block M d.blockSize.toNat i ≠ [] := fun i inside =>
    block_ne_nil (blockSize_pos d) ((lt_blockCount_iff (blockSize_pos d)).mp inside)
  have enough : M.length ≤ pieceCount d M * d.blockSize.toNat :=
    (blockCount_le_iff (blockSize_pos d)).mp le_rfl
  have full : (slots (block M d.blockSize.toNat) (pieceCount d M) got').all
      (fun piece => piece.length ≠ 0) = true ↔ ∀ i < pieceCount d M, i ∈ got' := by
    rw [← slots_full_iff filled]
    simp
  unfold onStored
  by_cases all : ∀ i < pieceCount d M, i ∈ got'
  · rw [if_pos (full.mpr all), if_pos all, slots_of_all all, flatten_blocks enough, if_pos infohash]
    rfl
  · rw [if_neg fun every => all (full.mp every), if_neg all]
    rfl

section Collecting

variable {env d dl M} {size : UInt64} (announced : size.toNat = M.length)
include announced

theorem onHandshake_collecting (dl : Download) (fits : M.length ≤ env.maxPieces * d.blockSize.toNat)
    {payload : List UInt8} {ehmsg : ExtendedHandshakeMsg}
    (decoded : env.decodeHandshake payload = .ok ehmsg)
    (supported : (ehmsg.messageIDs.lookup extendedMessageNameMetadata).getD 0 ≠ 0)
    (sized : ehmsg.metadataSize = size) :
    (onHandshake env d dl {} payload).1 =
        .reading (collecting d M ((ehmsg.messageIDs.lookup extendedMessageNameMetadata).getD 0) size []) ∧
      responses (onHandshake env d dl {} payload).2 = [] := by
  have few : pieceCount d M ≤ env.maxPieces := (blockCount_le_iff (blockSize_pos d)).mpr fits
  have limit := env.maxPieces_lt
  have num : piecesNumOf d size = pieceCount d M := by
    rw [piecesNumOf_eq, announced]
    exact int64_of_range (by omega) (by unfold pieceCount at few; omega)
  have makes : canMake env (piecesNumOf d size) := by
    rw [num]
    exact ⟨Nat.cast_nonneg _, by exact_mod_cast few⟩
  unfold onHandshake
  rw [if_neg (by decide)]
  simp only [decoded, if_neg supported, sized, if_pos makes]
  rw [num, Int.toNat_natCast]
  exact ⟨by rw [collecting, slots_nil], rfl⟩

/-- **The test on the length** rejects exactly the last block of metadata that the block size
divides. -/
theorem wrongLength_iff (small : M.length < 2 ^ 63) (id : UInt8) (got : List Nat) {i : Nat}
    (inside : i < pieceCount d M) {utmsg : UtMetadataExtendedMsg} (piece : utmsg.piece = i)
    (data : utmsg.data = block M d.blockSize.toNat i) :
    wrongLength d (collecting d M id size got) utmsg ↔
      i + 1 = pieceCount d M ∧ M.length % d.blockSize.toNat = 0 := by
  have positive := blockSize_pos d
  have length : utmsg.data.length =
      min d.blockSize.toNat (M.length - i * d.blockSize.toNat) := by rw [data, length_block]
  have rest : int64 (size % d.blockSize).toNat = (M.length % d.blockSize.toNat : Nat) := by
    rw [UInt64.toNat_mod, announced]
    have smaller := Nat.mod_le M.length d.blockSize.toNat
    exact int64_of_range (by omega) (by omega)
  have whole := Nat.div_add_mod' M.length d.blockSize.toNat
  have below := Nat.mod_lt M.length positive
  have count : pieceCount d M = _ := blockCount_eq M.length d.blockSize.toNat positive
  show (utmsg.piece ≠ (pieceCount d M : Int) - 1 ∧ _) ∨ (utmsg.piece = (pieceCount d M : Int) - 1 ∧
    (utmsg.data.length : Int) ≠ int64 (size % d.blockSize).toNat) ↔ _
  rw [rest, piece]
  by_cases last : i + 1 = pieceCount d M
  · have isLast : (i : Int) = (pieceCount d M : Int) - 1 := by omega
    rw [length]
    simp only [isLast, ne_eq, not_true_eq_false, false_and, false_or, true_and, last]
    split at count
    · -- The last block is what is left.
      have index : i = M.length / d.blockSize.toNat := by omega
      rw [index]
      omega
    · have index : i * d.blockSize.toNat + d.blockSize.toNat = M.length := by
        rw [← Nat.succ_mul, Nat.succ_eq_add_one, last, count]
        omega
      omega
  · have notLast : (i : Int) ≠ (pieceCount d M : Int) - 1 := by omega
    have next : (i + 1) * d.blockSize.toNat < M.length :=
      (lt_blockCount_iff positive).mp (by unfold pieceCount at last inside; omega)
    rw [Nat.succ_mul] at next
    have full : d.blockSize.toNat ≤ M.length - i * d.blockSize.toNat :=
      Nat.le_sub_of_add_le (Nat.add_comm _ _ ▸ next.le)
    have sized : int64 d.blockSize.toNat = (d.blockSize.toNat : Int) :=
      int64_of_range (by omega) (by omega)
    rw [sized, length, min_eq_left full]
    simp [notLast, last]

theorem onMessage_data (small : M.length < 2 ^ 63) (id : UInt8) (got : List Nat) {i : Nat}
    (inside : i < pieceCount d M) {msg : Message} (data : IsData env d M i msg) :
    onMessage env d dl (collecting d M id size got) msg =
      if i + 1 = pieceCount d M ∧ M.length % d.blockSize.toNat = 0 then (.returned none, [])
      else onStored env dl (collecting d M id size got)
        (slots (block M d.blockSize.toNat) (pieceCount d M) (i :: got)) := by
  obtain ⟨extended, utmsg, decoded, isData, piece, bytes⟩ := data
  rw [onMessage_extended env d dl _ extended, if_neg (by decide), if_pos rfl]
  unfold onUtMetadata
  have range : 0 ≤ utmsg.piece ∧ utmsg.piece <
      (slots (block M d.blockSize.toNat) (pieceCount d M) got).length := by
    rw [piece, length_slots]
    exact ⟨Nat.cast_nonneg _, by exact_mod_cast inside⟩
  simp only [collecting, decoded, isData, ne_eq, not_true_eq_false, if_false, if_pos range]
  rw [piece, Int.toNat_natCast, bytes, Lib.set_slots]
  refine if_congr ?_ rfl rfl
  exact wrongLength_iff announced small id got inside piece bytes

end Collecting

/-! ### Runs -/

/-- The loop collects, the blocks in `got` have arrived, and nothing has been delivered. -/
structure Collecting (id : UInt8) (size : UInt64) (got : List Nat) (s : State) : Prop where
  status : s.status = .reading (collecting d M id size got)
  quiet : responses s.effects = []

/-- The loop has returned, with these responses. -/
structure Finished (rs : List TorrentResponse) (s : State) : Prop where
  status : s.status = .returned none
  effects : responses s.effects = rs

/-- Everything the peer sends after the handshake. -/
def Harmless (msg : Message) : Prop :=
  Noise msg ∨ IsOther env msg ∨ ∃ i < pieceCount d M, IsData env d M i msg

theorem responses_append (first second : List Effect) :
    responses (first ++ second) = responses first ++ responses second :=
  List.filterMap_append

section Runs

variable {env d dl M} {id : UInt8} {size : UInt64} {got : List Nat} {s : State}

theorem step_message {p : Progress} (reading : s.status = .reading p) (msg : Message) :
    step env d dl s (.message msg false) =
      ⟨(onMessage env d dl p msg).1, s.effects ++ (onMessage env d dl p msg).2⟩ :=
  step_reading env d dl reading _

theorem step_finished {rs : List TorrentResponse} (finished : Finished rs s) (read : Read) :
    step env d dl s read = s :=
  step_ended env d dl (fun _ reading => nomatch finished.status.symm.trans reading) read

theorem run_finished (env : Runtime) (d : TorrentDownloader) (dl : Download)
    {rs : List TorrentResponse} (finished : Finished rs s) (reads : List Read) : Finished rs (run (step env d dl) s reads) := by
  refine run_holds (step env d dl) (P := Finished rs) (fun s read done => ?_) finished reads
  rw [step_finished done]
  exact done

theorem step_ignored (collects : Collecting d M id size got s) {msg : Message}
    (ignored : Noise msg ∨ IsOther env msg) :
    Collecting d M id size got (step env d dl s (.message msg false)) := by
  have goesOn : (onMessage env d dl (collecting d M id size got) msg).1 =
      .reading (collecting d M id size got) ∧
        responses (onMessage env d dl (collecting d M id size got) msg).2 = [] := by
    rcases ignored with noise | other
    · exact onMessage_noise env d dl _ noise
    · exact onMessage_other env d dl other nofun
  rw [step_message collects.status]
  exact ⟨goesOn.1, by rw [responses_append, collects.quiet, goesOn.2]; rfl⟩

/-- **A block arrives**: a last block of full length ends the loop, a block that completes the
metadata delivers it, and any other one is stored. -/
theorem step_data (announced : size.toNat = M.length) (small : M.length < 2 ^ 63)
    (infohash : dl.infohash = env.sha1 M) (collects : Collecting d M id size got s) {i : Nat}
    (inside : i < pieceCount d M) {msg : Message} (data : IsData env d M i msg) :
    if i + 1 = pieceCount d M ∧ M.length % d.blockSize.toNat = 0 then
      Finished [] (step env d dl s (.message msg false))
    else if ∀ j < pieceCount d M, j ∈ i :: got then
      Finished [delivered dl M] (step env d dl s (.message msg false))
    else Collecting d M id size (i :: got) (step env d dl s (.message msg false)) := by
  rw [step_message collects.status, onMessage_data announced small id got inside data]
  split
  · exact ⟨rfl, by rw [responses_append, collects.quiet]; rfl⟩
  · rw [onStored_collecting env d dl M infohash]
    split
    · exact ⟨rfl, by rw [responses_append, collects.quiet]; rfl⟩
    · exact ⟨rfl, by rw [responses_append, collects.quiet]; rfl⟩

theorem IsData.not_ignored {i : Nat} {msg : Message} (data : IsData env d M i msg) :
    ¬ (Noise msg ∨ IsOther env msg) := by
  obtain ⟨extended, utmsg, decoded, isData, _, _⟩ := data
  rintro ((keepalive | other | ⟨_, other⟩) | ⟨_, utmsg', decoded', notData⟩)
  · rw [extended.live] at keepalive
    cases keepalive
  · exact other extended.type
  · exact other extended.extendedID
  · obtain rfl := Except.ok.inj (decoded.symm.trans decoded')
    exact notData isData

theorem IsData.piece_unique {i j : Nat} {msg : Message} (data : IsData env d M i msg)
    (data' : IsData env d M j msg) : i = j := by
  obtain ⟨_, utmsg, decoded, _, piece, _⟩ := data
  obtain ⟨_, utmsg', decoded', _, piece', _⟩ := data'
  obtain rfl := Except.ok.inj (decoded.symm.trans decoded')
  exact_mod_cast piece.symm.trans piece'

def readsOf (msgs : List Message) : List Read := msgs.map fun msg => .message msg false

/-- Nothing has been delivered, and the loop has ended or goes on. -/
def Undelivered (d : TorrentDownloader) (M : List UInt8) (id : UInt8) (size : UInt64) (s : State) :
    Prop :=
  Finished [] s ∨ ∃ got, Collecting d M id size got s

/-- **After the handshake**: what is delivered if the messages in `after` arrive. A last block of
full length never gets among those in `got`. -/
theorem run_answers (announced : size.toNat = M.length) (small : M.length < 2 ^ 63)
    (infohash : dl.infohash = env.sha1 M) {after : List Message}
    (harmless : ∀ msg ∈ after, Harmless env d M msg) (collects : Collecting d M id size got s)
    (missing : ¬ ∀ i < pieceCount d M, i ∈ got)
    (noLast : M.length % d.blockSize.toNat = 0 → ∀ i ∈ got, i + 1 ≠ pieceCount d M) :
    let complete := M.length % d.blockSize.toNat ≠ 0 ∧
      ∀ i < pieceCount d M, i ∈ got ∨ ∃ msg ∈ after, IsData env d M i msg
    (complete ∧ Finished [delivered dl M] (run (step env d dl) s (readsOf after))) ∨
      (¬ complete ∧ Undelivered d M id size (run (step env d dl) s (readsOf after))) := by
  induction after generalizing s got with
  | nil =>
    refine .inr ⟨fun all => missing fun i inside => ?_, .inr ⟨got, collects⟩⟩
    exact (all.2 i inside).resolve_right (by simp)
  | cons msg rest ih =>
    obtain ⟨here, later⟩ := List.forall_mem_cons.mp harmless
    rw [Harmless, ← or_assoc] at here
    rcases here with ignored | ⟨i, inside, data⟩
    · have same : ∀ j, (∃ m ∈ msg :: rest, IsData env d M j m) ↔ ∃ m ∈ rest, IsData env d M j m := by
        intro j
        rw [List.exists_mem_cons_iff, or_iff_right fun data => data.not_ignored ignored]
      simp only [same]
      exact ih later (step_ignored collects ignored) missing noLast
    · have same : ∀ j, (j ∈ got ∨ ∃ m ∈ msg :: rest, IsData env d M j m) ↔
          j ∈ i :: got ∨ ∃ m ∈ rest, IsData env d M j m := by
        intro j
        have this : IsData env d M j msg ↔ j = i :=
          ⟨fun data' => data'.piece_unique data, fun same => same ▸ data⟩
        rw [List.exists_mem_cons_iff, this, List.mem_cons]
        tauto
      simp only [same]
      have arrives := step_data announced small infohash collects inside data
      split at arrives
      · rename_i full
        exact .inr ⟨fun all => all.1 full.2, .inl (run_finished env d dl arrives (readsOf rest))⟩
      · rename_i stored
        have noLast' : M.length % d.blockSize.toNat = 0 → ∀ j ∈ i :: got, j + 1 ≠ pieceCount d M :=
          fun divides => List.forall_mem_cons.mpr
            ⟨fun last => stored ⟨last, divides⟩, noLast divides⟩
        split at arrives
        · rename_i all
          refine .inl ⟨⟨fun divides => ?_, fun j less => .inl (all j less)⟩,
            run_finished env d dl arrives (readsOf rest)⟩
          exact noLast' divides _ (all (pieceCount d M - 1) (by omega)) (by omega)
        · exact ih later arrives ‹_› noLast'

theorem run_noise (env : Runtime) (d : TorrentDownloader) (dl : Download) {before : List Message}
    (noise : ∀ msg ∈ before, Noise msg) :
    (run (step env d dl) {} (readsOf before)).status = .reading {} ∧
      responses (run (step env d dl) {} (readsOf before)).effects = [] := by
  refine run_holds_of_mem (step env d dl)
    (P := fun s => s.status = .reading {} ∧ responses s.effects = [])
    (G := fun read => ∃ msg, Noise msg ∧ read = .message msg false) ?_ ⟨rfl, rfl⟩ ?_
  · rintro s _ ⟨reading, quiet⟩ ⟨msg, noise, rfl⟩
    obtain ⟨goesOn, silent⟩ := onMessage_noise env d dl {} noise
    rw [step_message reading]
    exact ⟨goesOn, by rw [responses_append, quiet, silent]; rfl⟩
  · intro read member
    obtain ⟨msg, inside, rfl⟩ := List.mem_map.mp member
    exact ⟨msg, noise msg inside, rfl⟩

theorem step_handshake (dl : Download) (fits : M.length ≤ env.maxPieces * d.blockSize.toNat)
    (reading : s.status = .reading {}) (quiet : responses s.effects = []) {msg : Message}
    (handshake : IsHandshake env M msg) :
    ∃ id size, size.toNat = M.length ∧
      Collecting d M id size [] (step env d dl s (.message msg false)) := by
  obtain ⟨extended, ehmsg, decoded, supported, announced⟩ := handshake
  obtain ⟨goesOn, silent⟩ :=
    onHandshake_collecting announced dl fits decoded supported rfl
  refine ⟨(ehmsg.messageIDs.lookup extendedMessageNameMetadata).getD 0, ehmsg.metadataSize, announced, ?_⟩
  rw [step_message reading, onMessage_extended env d dl _ extended, if_pos rfl]
  exact ⟨goesOn, by rw [responses_append, quiet, silent]; rfl⟩

/-- **From the start**: what is delivered if `answers` are the messages that arrive behind the
handshake. -/
theorem run_honest (nonempty : 1 ≤ M.length) (small : M.length < 2 ^ 63)
    (fits : M.length ≤ env.maxPieces * d.blockSize.toNat) (infohash : dl.infohash = env.sha1 M)
    {before after answers : List Message} {handshake : Message}
    (honest : Honest env d M before handshake after) (inside : answers ⊆ after) :
    let complete := M.length % d.blockSize.toNat ≠ 0 ∧
      ∀ i < pieceCount d M, ∃ msg ∈ answers, IsData env d M i msg
    let s := run (step env d dl) {} (readsOf (before ++ handshake :: answers))
    (complete ∧ Finished [delivered dl M] s) ∨
      (¬ complete ∧ ∃ id size, Undelivered d M id size s) := by
  have some : 0 < pieceCount d M :=
    (lt_blockCount_iff (blockSize_pos d)).mpr (by rw [Nat.zero_mul]; exact nonempty)
  obtain ⟨reading, quiet⟩ := run_noise env d dl honest.noise
  obtain ⟨id, size, announced, collects⟩ := step_handshake dl fits reading quiet honest.announces
  have result := run_answers announced small infohash
    (fun msg member => honest.harmless msg (inside member)) collects
    (fun all => absurd (all 0 some) List.not_mem_nil) (by simp)
  simp only [List.not_mem_nil, false_or] at result
  rw [readsOf, List.map_append, List.map_cons, run_append, run_cons]
  exact result.imp_right fun undelivered => ⟨undelivered.1, id, size, undelivered.2⟩

end Runs

/-! ### The bytes of the peer -/

/-- A message and its bytes, which `Decode` accepts if the length is not limited. -/
structure Frame where
  bytes : List UInt8
  msg : Message
  accepted : Accepts 0 bytes msg

/-- `ReadMsg` accepts all the frames on a new connection: none of them is longer than 256 KiB, and
only the first one may be of a kind that has to be the first. -/
structure Readable (frames : List Frame) : Prop where
  short : ∀ f ∈ frames, announced f.bytes ≤ 256 * 1024
  first : ∀ f ∈ frames.tail, MessageKind.of f.msg.type ∉ firstKinds

def Fits (pc : Conn) (f : Frame) : Prop :=
  ¬ (0 < pc.maxLength ∧ pc.maxLength.toNat < announced f.bytes) ∧
    ¬ (MessageKind.of f.msg.type ∈ firstKinds ∧ pc.peerStage ≠ .handshook)

/-- `ReadMsg` accepts the frames one after the other. -/
def FitsAll : Conn → List Frame → Prop
  | _, [] => True
  | pc, f :: rest => Fits pc f ∧ FitsAll pc.moveOn rest

theorem fits_iff {pc : Conn} (max : pc.maxLength = 256 * 1024) (f : Frame) :
    Fits pc f ↔ announced f.bytes ≤ 256 * 1024 ∧
      ¬ (MessageKind.of f.msg.type ∈ firstKinds ∧ pc.peerStage ≠ .handshook) := by
  rw [Fits, max, not_and, not_lt]
  exact and_congr_left' ⟨fun within => within (by decide), fun within _ => within⟩

theorem fitsAll_of_message {pc : Conn} (stage : pc.peerStage ≠ .handshook)
    (max : pc.maxLength = 256 * 1024) (frames : List Frame) :
    FitsAll pc frames ↔ (∀ f ∈ frames, announced f.bytes ≤ 256 * 1024) ∧
      ∀ f ∈ frames, MessageKind.of f.msg.type ∉ firstKinds := by
  induction frames with
  | nil => simp [FitsAll]
  | cons f rest ih =>
    have same : pc.moveOn = pc := by rw [Conn.moveOn, if_neg stage]
    rw [FitsAll, same, ih, fits_iff max, and_iff_left stage, List.forall_mem_cons,
      List.forall_mem_cons]
    tauto

theorem fitsAll_iff {pc : Conn} (stage : pc.peerStage = .handshook)
    (max : pc.maxLength = 256 * 1024) (frames : List Frame) : FitsAll pc frames ↔ Readable frames := by
  cases frames with
  | nil => exact ⟨fun _ => ⟨by simp, by simp⟩, fun _ => trivial⟩
  | cons f rest =>
    have next : pc.moveOn.peerStage ≠ .handshook := by
      rw [Conn.moveOn, if_pos stage]
      simp
    rw [FitsAll, fits_iff max, and_iff_left fun late => late.2 stage, fitsAll_of_message next max]
    constructor
    · rintro ⟨here, short, first⟩
      exact ⟨List.forall_mem_cons.mpr ⟨here, short⟩, first⟩
    · rintro ⟨short, first⟩
      exact ⟨short f (.head _), fun g member => short g (.tail _ member), first⟩

section Reads

variable {ρ : Type} [ByteReader ρ]

/-- What the rounds of the loop read while the downloader is not closed: `conn.ReadMsg()` again and
again, up to an error. -/
def readsFrom : Nat → Conn → ρ → List Read
  | 0, _, _ => []
  | rounds + 1, pc, r =>
      match readMsg pc r with
      | (_, some err, _, _) => [.failed err]
      | (msg, none, pc, r) => .message msg false :: readsFrom rounds pc r

theorem readMsg_frame (pc : Conn) (f : Frame) {r : ρ} {more : List UInt8}
    (delivers : remaining r = f.bytes ++ more) :
    (Fits pc f ∧ ∃ r', readMsg pc r = (f.msg, none, pc.moveOn, r') ∧ remaining r' = more) ∨
      (¬ Fits pc f ∧ ∃ msg err pc' r', readMsg pc r = (msg, some err, pc', r')) := by
  obtain ⟨r', decoded⟩ := f.accepted.decode_limited pc.maxLength delivers
  unfold readMsg
  split at decoded
  · rename_i long
    rw [decoded]
    exact .inr ⟨fun fits => fits.1 long, _, _, _, _, rfl⟩
  · rename_i short
    rw [decoded.1]
    dsimp only
    split
    · rename_i late
      exact .inr ⟨fun fits => fits.2 late, _, _, _, _, rfl⟩
    · rename_i early
      exact .inl ⟨⟨short, early⟩, r', rfl, decoded.2⟩

theorem readsFrom_end (rounds : Nat) (pc : Conn) {r : ρ} (ended : remaining r = []) :
    readsFrom rounds pc r = [] ∨ ∃ err, readsFrom rounds pc r = [.failed err] := by
  cases rounds with
  | zero => exact .inl rfl
  | succ rounds =>
    have failed := (decode_of_short {} pc.maxLength (r := r) (by rw [ended]; decide)).2
    refine .inr ⟨.eof, ?_⟩
    rw [if_pos ended] at failed
    unfold readsFrom readMsg
    generalize decode {} r pc.maxLength = result at failed
    obtain ⟨m, err, r'⟩ := result
    obtain rfl : err = some .eof := failed
    rfl

/-- **What is read of the frames of a peer** that then closes the connection: the longest front of
them that `ReadMsg` accepts, and after it at most an error. -/
theorem readsFrom_frames {frames : List Frame} {rounds : Nat} (pc : Conn) {r : ρ}
    (delivers : remaining r = frames.flatMap Frame.bytes) (enough : frames.length ≤ rounds) :
    ∃ got stop, got <+: frames ∧ FitsAll pc got ∧
      (∀ front, front <+: frames → FitsAll pc front → front <+: got) ∧
      readsFrom rounds pc r = readsOf (got.map Frame.msg) ++ stop ∧
      (stop = [] ∨ ∃ err, stop = [.failed err]) := by
  induction frames generalizing rounds pc r with
  | nil => exact ⟨[], _, List.nil_prefix, trivial, fun _ front _ => front, rfl, readsFrom_end _ pc delivers⟩
  | cons f rest ih =>
    obtain ⟨rounds, rfl⟩ := Nat.exists_eq_add_one_of_ne_zero (Nat.ne_zero_of_lt enough)
    rw [List.flatMap_cons] at delivers
    unfold readsFrom
    rcases readMsg_frame pc f delivers with ⟨fits, r', read, left⟩ | ⟨refused, _, err, _, _, read⟩
    · obtain ⟨got, stop, front, fitsAll, longest, reads, ends⟩ :=
        ih pc.moveOn left (Nat.le_of_succ_le_succ enough)
      refine ⟨f :: got, stop, List.cons_prefix_cons.mpr ⟨rfl, front⟩, ⟨fits, fitsAll⟩, ?_, ?_, ends⟩
      · intro other inside fitsOther
        cases other with
        | nil => exact List.nil_prefix
        | cons g more =>
          obtain ⟨rfl, later⟩ := List.cons_prefix_cons.mp inside
          exact List.cons_prefix_cons.mpr ⟨rfl, longest more later fitsOther.2⟩
      · rw [read]
        dsimp only
        rw [reads]
        rfl
    · refine ⟨[], [.failed err], List.nil_prefix, trivial, ?_, by rw [read]; rfl, .inr ⟨err, rfl⟩⟩
      intro other inside fitsOther
      cases other with
      | nil => exact List.nil_prefix
      | cons g more =>
        obtain ⟨rfl, _⟩ := List.cons_prefix_cons.mp inside
        exact absurd fitsOther.1 refused

end Reads

theorem prefix_cases {α : Type} {got before after : List α} {a : α}
    (front : got <+: before ++ a :: after) :
    (∃ more, got = before ++ a :: more ∧ more <+: after) ∨ got <+: before := by
  rcases List.prefix_or_prefix_of_prefix front (List.prefix_append before _) with short | ⟨more, rfl⟩
  · exact .inr short
  · rw [List.prefix_append_right_inj] at front
    cases more with
    | nil => exact .inr (by simp)
    | cons b more =>
      obtain ⟨rfl, later⟩ := List.cons_prefix_cons.mp front
      exact .inl ⟨more, rfl, later⟩

theorem not_delivered {s : State} {p : Progress} (reading : s.status = .reading p) {stop : List Read}
    (ends : stop = [] ∨ ∃ err, stop = [.failed err]) :
    (run (step env d dl) s stop).status ≠ .returned none := by
  rcases ends with rfl | ⟨err, rfl⟩
  · rw [run_nil, reading]
    simp
  · rw [run_cons, run_nil, step_reading env d dl reading]
    simp [onRead]

theorem Undelivered.not_delivered {id : UInt8} {size : UInt64} {s : State}
    (undelivered : Undelivered d M id size s) {stop : List Read} (ends : stop = [] ∨ ∃ err, stop = [.failed err]) :
    ¬ ((run (step env d dl) s stop).status = .returned none ∧
      responses (run (step env d dl) s stop).effects = [delivered dl M]) := by
  rintro ⟨status, effects⟩
  rcases undelivered with finished | ⟨got, collects⟩
  · rw [(run_finished env d dl finished stop).effects] at effects
    cases effects
  · exact Downloader.not_delivered env d dl collects.status ends status

end Honest

/-! ### Small runs -/

def announcement (size : String) : List UInt8 :=
  str "d1:md11:ut_metadatai3ee13:metadata_sizei" ++ str size ++ str "ee"

def dataPayload (piece size : String) (data : List UInt8) : List UInt8 :=
  str "d8:msg_typei1e5:piecei" ++ str piece ++ str "e10:total_sizei" ++ str size ++ str "ee" ++ data

def Frame.sent (msg : Message) (sendable : Sendable msg) : Frame := ⟨msg.encode, msg, sendable.accepts⟩

theorem sendable_extendedMsg {id : UInt8} {payload : List UInt8} (short : payload.length < 2 ^ 31) :
    Sendable (extendedMsg id payload) := by
  have used : (extendedMsg id payload).OnlyUsed := by
    constructor <;> simp [extendedMsg]
  refine ⟨.inr ⟨rfl, used, show mTypeExtended ≠ mTypeSuggest by decide,
    show mTypeExtended ≠ mTypeAllowedFast by decide⟩, ?_⟩
  rw [Message.body_of_live rfl]
  show (id :: payload).length + 1 < 2 ^ 32
  rw [List.length_cons]
  omega

def extendedFrame (id : UInt8) (payload : List UInt8) (short : payload.length < 2 ^ 31) : Frame :=
  .sent (extendedMsg id payload) (sendable_extendedMsg short)

/-- The connection of a small run, right behind the handshake of the two peers. -/
def sampleConn : Conn := { newPeerConn (Hash.fill 1) (Hash.fill 2) with peerStage := .handshook }

theorem isHandshake_announcement {size : String} {M : List UInt8}
    (decoded : (sampleRuntime.decodeHandshake (announcement size)).toOption.map (fun ehmsg =>
      ((ehmsg.messageIDs.lookup extendedMessageNameMetadata).getD 0, ehmsg.metadataSize.toNat)) =
        some (3, M.length)) :
    IsHandshake sampleRuntime M (extendedMsg 0 (announcement size)) := by
  refine ⟨⟨rfl, rfl, rfl⟩, ?_⟩
  cases result : sampleRuntime.decodeHandshake (announcement size) with
  | error fault =>
    rw [result] at decoded
    cases decoded
  | ok ehmsg =>
    rw [result] at decoded
    obtain ⟨id, length⟩ := Prod.mk.inj (Option.some.inj decoded)
    exact ⟨ehmsg, result, by rw [id]; decide, length⟩

theorem isData_dataPayload {piece size : String} {data M : List UInt8} {i : Nat} (total : UInt64)
    (decoded : sampleRuntime.decodeUtMetadata (dataPayload piece size data) =
      .ok ⟨utMetadataExtendedMsgTypeData, i, total, data⟩)
    (bytes : data = block M smallDownloader.blockSize.toNat i) :
    IsData sampleRuntime smallDownloader M i (extendedMsg 1 (dataPayload piece size data)) :=
  ⟨⟨rfl, rfl, rfl⟩, _, decoded, rfl, rfl, bytes⟩

def announceFrame : Frame := extendedFrame 0 (announcement "3") (by decide)

def keepaliveFrame : Frame := .sent { keepalive := true } ⟨.inl rfl, by decide⟩

def unchokeFrame : Frame :=
  .sent { type := mTypeUnchoke }
    ⟨.inr ⟨rfl, by constructor <;> decide, by decide, by decide⟩, by decide⟩

/-- The two blocks of three bytes. -/
def firstFrame : Frame := extendedFrame 1 (dataPayload "0" "3" [1, 2]) (by decide)
def secondFrame : Frame := extendedFrame 1 (dataPayload "1" "3" [3]) (by decide)

theorem firstFrame_isData : IsData sampleRuntime smallDownloader [1, 2, 3] 0 firstFrame.msg :=
  isData_dataPayload 3 (by decide +kernel) (by decide)

theorem secondFrame_isData : IsData sampleRuntime smallDownloader [1, 2, 3] 1 secondFrame.msg :=
  isData_dataPayload 3 (by decide +kernel) (by decide)

theorem three_honest :
    Honest sampleRuntime smallDownloader [1, 2, 3] ([keepaliveFrame].map Frame.msg)
      announceFrame.msg ([secondFrame, unchokeFrame, firstFrame].map Frame.msg) := by
  refine ⟨?_, isHandshake_announcement (by decide +kernel), ?_, ?_⟩
  · rintro msg (_ | ⟨_, ⟨⟩⟩)
    exact Or.inl rfl
  · rintro msg (_ | ⟨_, _ | ⟨_, _ | ⟨_, ⟨⟩⟩⟩⟩)
    · exact Or.inr (Or.inr ⟨1, by decide, secondFrame_isData⟩)
    · exact Or.inl (Or.inr (Or.inl (by decide)))
    · exact Or.inr (Or.inr ⟨0, by decide, firstFrame_isData⟩)
  · rintro id request (_ | ⟨_, _ | ⟨_, ⟨⟩⟩⟩)
    · exact ⟨_, List.mem_cons_of_mem _ (List.mem_cons_of_mem _ List.mem_cons_self), firstFrame_isData⟩
    · exact ⟨_, List.mem_cons_self, secondFrame_isData⟩

end GoBt.Downloader
