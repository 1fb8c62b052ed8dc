/-
**The handler of a block download** (`downloader/block_handler.go`).

* `BlockDownloadHandler` — the handler, with the callbacks it is made of.
* `Opening` — what a peer may start with: a bit field, `HaveAll`, `HaveNone` or none of them.
* `handleAll_haves` — what a run of `Have` messages does to the bit field.
* `peerHasPiece_iff_announced` — **when the pieces of a peer are known.** A `Have` message is lost as
  long as the connection has no bit field.
* `full_bitField_iff` — **when a full bit field claims exactly the pieces that exist.** The bits behind
  the last piece are ones, too.
-/

import GoBt.PeerProtocol.BitField
import GoBt.PeerProtocol.PeerConn

namespace GoBt.Downloader

open GoBt.Lib GoBt.PeerProtocol

/-- `BlockDownloadHandler`; its callbacks have a state `σ`. -/
structure BlockDownloadHandler (σ : Type) where
  onBlock : Option (UInt32 → UInt32 → List UInt8 → σ → σ × Option HandleError)
  reqBlock : Option (Conn → σ → Conn × σ × Option HandleError)
  pieceNum : Int

namespace BlockDownloadHandler

variable {σ : Type} (fd : BlockDownloadHandler σ)

def request (pc : Conn) (w : σ) : Conn × σ × Option HandleError :=
  match fd.reqBlock with
  | none => (pc, w, none)
  | some reqBlock => if pc.peerChoked then (pc, w, some errChoked) else reqBlock pc w

def piece (index begin : UInt32) (data : List UInt8) (pc : Conn) (w : σ) :
    Conn × σ × Option HandleError :=
  match fd.onBlock with
  | none => fd.request pc w
  | some onBlock =>
      match onBlock index begin data w with
      | (w, some err) => (pc, w, some err)
      | (w, none) => fd.request pc w

def haveAll (maxBytes : Nat) (pc : Conn) (w : σ) : Conn × σ × Option HandleError :=
  if 0 < fd.pieceNum then
    match BitField.new maxBytes fd.pieceNum true with
    | some bits => ({ pc with bitField := bits }, w, none)
    | none => (pc, w, some .panicked)
  else (pc, w, none)

/-- The handler: the methods of `BlockDownloadHandler`, and those of `NoopHandler`, `NoopBep3Handler`
and `NoopBep6Handler`. -/
def handler (maxBytes : Nat) : Handler σ where
  bep3 := true
  bep5 := false
  bep6 := true
  bep10 := false
  act
    | .piece index begin data => fd.piece index begin data
    | .unchoke => fd.request
    | .havePiece index => fun pc w => ({ pc with bitField := (pc.bitField.set index).1 }, w, none)
    | .haveAll => fd.haveAll maxBytes
    | .reject index _ _ => fun pc w => fd.request { pc with bitField := (pc.bitField.unset index).1 } w
    | _ => fun pc w => (pc, w, none)

end BlockDownloadHandler

/-! ### Messages about pieces -/

/-- What a peer may send before its first `Have`. -/
inductive Opening
  | nothing
  | bitField (bits : BitField)
  | haveAll
  | haveNone

namespace Opening

def messages : Opening → List Message
  | .nothing => []
  | .bitField bits => [{ type := mTypeBitField, bitField := bits }]
  | .haveAll => [{ type := mTypeHaveAll }]
  | .haveNone => [{ type := mTypeHaveNone }]

/-- The first message says that the peer has the piece. -/
def Announces (index : UInt32) : Opening → Prop
  | .bitField bits => bits.isSet index = true
  | .haveAll => True
  | _ => False

/-- A bit field has a bit for every piece, in as many bytes as needed. -/
def Sized (n : Nat) : Opening → Prop
  | .bitField bits => bits.length = (n + 7) / 8
  | _ => True

/-- The connection has a bit field afterwards, or does not need one. -/
def Recorded (maxBytes n : Nat) (haves : List UInt32) : Opening → Prop
  | .bitField _ => True
  | .haveAll => n + 7 < 2 ^ 63 ∧ (n + 7) / 8 ≤ maxBytes
  | _ => haves = []

end Opening

def haveMsg (index : UInt32) : Message := { type := mTypeHave, index := index }

section Have

variable {σ : Type} (net : NetIP) (fd : BlockDownloadHandler σ) (maxBytes : Nat)

theorem handleAll_cons_value (handler : Handler σ) (msg : Message) (rest : List Message)
    (s : Conn × σ) :
    (handleAll net handler (msg :: rest)).value s = (handleMessage net handler msg).value s ::
      (handleAll net handler rest).value ((handleMessage net handler msg).state s) := rfl

theorem handleAll_cons_state (handler : Handler σ) (msg : Message) (rest : List Message)
    (s : Conn × σ) :
    (handleAll net handler (msg :: rest)).state s =
      (handleAll net handler rest).state ((handleMessage net handler msg).state s) := rfl

/-- **What a run of `Have` messages does**: the bits that lie in the bit field are set. -/
theorem handleAll_haves (haves : List UInt32) (pc : Conn) (w : σ) :
    (∀ err ∈ (handleAll net (fd.handler maxBytes) (haves.map haveMsg)).value (pc, w), err = none) ∧
      ∀ i, ((handleAll net (fd.handler maxBytes) (haves.map haveMsg)).state (pc, w)).1.peerHasPiece i =
          true ↔
        pc.peerHasPiece i = true ∨ (i ∈ haves ∧ BitField.byteOf i < pc.bitField.length) := by
  induction haves generalizing pc w with
  | nil =>
    refine ⟨fun err member => absurd member List.not_mem_nil, fun i => ?_⟩
    show pc.peerHasPiece i = true ↔ _
    simp
  | cons index rest ih =>
    -- both `HandleMessage` and the handler set the bit
    obtain ⟨fine, bits⟩ := ih { pc with bitField := (((pc.bitField.set index).1).set index).1 } w
    refine ⟨List.forall_mem_cons.mpr ⟨rfl, fine⟩, fun i => (bits i).trans ?_⟩
    simp only [Conn.peerHasPiece, BitField.isSet_set, BitField.length_set, List.mem_cons]
    constructor
    · rintro (((set | ⟨rfl, inside⟩) | ⟨rfl, inside⟩) | ⟨member, inside⟩)
      · exact .inl set
      · exact .inr ⟨.inl rfl, inside⟩
      · exact .inr ⟨.inl rfl, inside⟩
      · exact .inr ⟨.inr member, inside⟩
    · rintro (set | ⟨rfl | member, inside⟩)
      · exact .inl (.inl (.inl set))
      · exact .inl (.inr ⟨rfl, inside⟩)
      · exact .inr ⟨member, inside⟩

/-- The pieces that are known after an opening that leaves the connection `pc` and some `Have`
messages are those the opening announced and those of the messages. -/
def Known (n : Nat) (opening : Opening) (haves : List UInt32) (errs : List (Option HandleError))
    (pc : Conn) : Prop :=
  (∀ err ∈ errs, err ≠ some .panicked) ∧
    ∀ i : UInt32, i.toNat < n → (pc.peerHasPiece i = true ↔ opening.Announces i ∨ i ∈ haves)

variable {n : Nat} {opening : Opening} {haves : List UInt32}

theorem handle_haveAll (some' : 1 ≤ n) (machine : n < 2 ^ 63) (count : fd.pieceNum = n) {pc : Conn}
    (fast : pc.extBits.isSupportFast = true) (w : σ) :
    handleMessage net (fd.handler maxBytes) { type := mTypeHaveAll } (pc, w) =
      if n + 7 < 2 ^ 63 ∧ (n + 7) / 8 ≤ maxBytes then
        (none, ({ pc with bitField := .filled ((n + 7) / 8) true }, w), [.haveAll])
      else (some .panicked, (pc, w), [.haveAll]) := by
  have called : handleMessage net (fd.handler maxBytes) { type := mTypeHaveAll } (pc, w) =
      ((fd.haveAll maxBytes pc w).2.2, ((fd.haveAll maxBytes pc w).1, (fd.haveAll maxBytes pc w).2.1),
        [.haveAll]) := supporting_of errNotSupportFast _ fast w
  have positive : 0 < fd.pieceNum := by omega
  rw [called, BlockDownloadHandler.haveAll, if_pos positive, count, BitField.new_of_nat maxBytes machine]
  by_cases fits : n + 7 < 2 ^ 63 ∧ (n + 7) / 8 ≤ maxBytes
  · rw [if_pos fits, if_pos fits]
  · rw [if_neg fits, if_neg fits]

theorem known_of_bits (before : List (Option HandleError)) (fine : ∀ err ∈ before, err ≠ some .panicked)
    (pc : Conn) (w : σ) (long : pc.bitField.length = (n + 7) / 8)
    (announced : ∀ i : UInt32, i.toNat < n → (pc.peerHasPiece i = true ↔ opening.Announces i)) :
    Known n opening haves
      (before ++ (handleAll net (fd.handler maxBytes) (haves.map haveMsg)).value (pc, w))
      ((handleAll net (fd.handler maxBytes) (haves.map haveMsg)).state (pc, w)).1 := by
  obtain ⟨quiet, bits⟩ := handleAll_haves net fd maxBytes haves pc w
  refine ⟨List.forall_mem_append.mpr ⟨fine, fun err member => ?_⟩, fun i below => ?_⟩
  · rw [quiet err member]
    exact nofun
  · have inside : BitField.byteOf i < pc.bitField.length := by
      rw [long]
      unfold BitField.byteOf
      omega
    rw [bits i, announced i below]
    simp [inside]

theorem known_iff_of_nil (before : List (Option HandleError))
    (fine : ∀ err ∈ before, err ≠ some .panicked) {pc : Conn} (w : σ) (empty : pc.bitField = [])
    (silent : ∀ i, ¬ opening.Announces i) (inside : ∀ i ∈ haves, i.toNat < n) :
    Known n opening haves
        (before ++ (handleAll net (fd.handler maxBytes) (haves.map haveMsg)).value (pc, w))
        ((handleAll net (fd.handler maxBytes) (haves.map haveMsg)).state (pc, w)).1 ↔
      haves = [] := by
  obtain ⟨quiet, bits⟩ := handleAll_haves net fd maxBytes haves pc w
  have unknown : ∀ i,
      ((handleAll net (fd.handler maxBytes) (haves.map haveMsg)).state (pc, w)).1.peerHasPiece i =
        false := by
    intro i
    rw [Bool.eq_false_iff, Ne, bits i]
    simp [Conn.peerHasPiece, empty, BitField.not_isSet_nil]
  constructor
  · rintro ⟨_, known⟩
    refine List.eq_nil_iff_forall_not_mem.mpr fun i member => ?_
    have has := (known i (inside i member)).mpr (.inr member)
    rw [unknown i] at has
    cases has
  · rintro rfl
    refine ⟨List.forall_mem_append.mpr ⟨fine, fun err member => ?_⟩, fun i _ => ?_⟩
    · rw [quiet err member]
      exact nofun
    · rw [unknown i]
      simp [silent i]

/-- **When the pieces of a peer are known.** On a connection without a bit field and with the Fast
extension, after an opening and `Have` messages for some of the `n` pieces: the pieces that the
connection knows of are those the opening or a message has announced exactly if the opening was a bit
field, or `HaveAll` with a number of pieces for which a bit field can be made, or there were no `Have`
messages. -/
theorem peerHasPiece_iff_announced (some' : 1 ≤ n) (machine : n < 2 ^ 63) (count : fd.pieceNum = n)
    {pc : Conn} (empty : pc.bitField = []) (fast : pc.extBits.isSupportFast = true)
    (sized : opening.Sized n) (inside : ∀ i ∈ haves, i.toNat < n) (w : σ) :
    (let messages := opening.messages ++ haves.map haveMsg
      let handled := handleAll net (fd.handler maxBytes) messages
      (∀ err ∈ handled.value (pc, w), err ≠ some .panicked) ∧
        ∀ i : UInt32, i.toNat < n →
          ((handled.state (pc, w)).1.peerHasPiece i = true ↔ opening.Announces i ∨ i ∈ haves)) ↔
      opening.Recorded maxBytes n haves := by
  cases opening with
  | nothing =>
      exact known_iff_of_nil net fd maxBytes [] nofun w empty (fun _ => id) inside
  | bitField bits =>
      refine iff_of_true ?_ trivial
      exact known_of_bits net fd maxBytes [none] (by simp) { pc with bitField := bits } w sized
        fun i _ => Iff.rfl
  | haveAll =>
      have handled := handle_haveAll net fd maxBytes some' machine count fast w
      by_cases fits : n + 7 < 2 ^ 63 ∧ (n + 7) / 8 ≤ maxBytes
      · refine iff_of_true ?_ fits
        rw [if_pos fits] at handled
        dsimp only
        rw [Opening.messages, List.singleton_append, handleAll_cons_value, handleAll_cons_state,
          Act.value, Act.state, handled]
        refine known_of_bits net fd maxBytes [none] (by simp) _ w List.length_replicate fun i below => ?_
        refine iff_of_true (BitField.isSet_filled.mpr ?_) trivial
        unfold BitField.byteOf
        omega
      · refine iff_of_false ?_ fits
        rw [if_neg fits] at handled
        rintro ⟨fine, _⟩
        rw [Opening.messages, List.singleton_append, handleAll_cons_value] at fine
        refine fine (some .panicked) (List.mem_cons.mpr (.inl ?_)) rfl
        rw [Act.value, handled]
  | haveNone =>
      have handled : handleMessage net (fd.handler maxBytes) { type := mTypeHaveNone } (pc, w) =
          (none, (pc, w), [.haveNone]) := supporting_of errNotSupportFast _ fast w
      dsimp only
      rw [Opening.messages, List.singleton_append, handleAll_cons_value, handleAll_cons_state,
        Act.value, Act.state, handled]
      exact known_iff_of_nil net fd maxBytes [none] (by simp) w empty (fun _ => id) inside

end Have

def fastConn : Conn := { toPeerConn := fastPeers false }

def onePiece : BlockDownloadHandler Unit := { onBlock := none, reqBlock := none, pieceNum := 1 }

/-- A bit field, and a `Have` message for the piece it leaves out. -/
theorem peerHasPiece_of_bitField :
    let messages := (Opening.bitField [0]).messages ++ [0].map haveMsg
    let handled := handleAll noNet (onePiece.handler 1024) messages
    (∀ err ∈ handled.value (fastConn, ()), err ≠ some .panicked) ∧
      ∀ i : UInt32, i.toNat < 1 →
        ((handled.state (fastConn, ())).1.peerHasPiece i = true ↔
          (Opening.bitField [0]).Announces i ∨ i ∈ [0]) :=
  (peerHasPiece_iff_announced noNet onePiece 1024 le_rfl (by decide) rfl rfl (by decide)
    (show (Opening.bitField [0]).Sized 1 from rfl)
    (List.forall_mem_singleton.mpr (by decide)) ()).mpr trivial

/-- **A `Have` message behind `HaveNone` is lost.** -/
theorem have_lost_after_haveNone :
    let handled := handleAll noNet (onePiece.handler 1024) [{ type := mTypeHaveNone }, haveMsg 0]
    fastConn.bitField = [] ∧ fastConn.extBits.isSupportFast = true ∧
      handled.value (fastConn, ()) = [none, none] ∧
      (handled.state (fastConn, ())).1.peerHasPiece 0 = false := by
  decide

/-! ### A full bit field -/

/-- The bits of a full bit field are `0` to `n - 1` exactly if `n` fills the last byte and an index of
32 bits can count to it. -/
theorem sets_full_iff {maxBytes n : Nat} (machine : n < 2 ^ 63) :
    (∃ bf, BitField.new maxBytes n true = some bf ∧
        (BitField.sets bf).map UInt32.toNat = List.range n) ↔
      n % 8 = 0 ∧ n ≤ 2 ^ 32 ∧ n / 8 ≤ maxBytes := by
  rw [BitField.new_of_nat maxBytes machine]
  constructor
  · rintro ⟨bf, made, exact'⟩
    split_ifs at made with fits
    obtain rfl := Option.some.inj made
    have count := congrArg List.length exact'
    rw [BitField.sets_filled, List.map_map, List.length_map, List.length_range,
      List.length_range] at count
    refine ⟨by omega, ?_, by omega⟩
    by_contra large
    -- no index is 2^32
    have member : 2 ^ 32 ∈ List.range n := List.mem_range.mpr (not_le.mp large)
    rw [← exact'] at member
    obtain ⟨index, _, same⟩ := List.mem_map.mp member
    exact absurd index.toNat_lt (by omega)
  · rintro ⟨whole, small, room⟩
    refine ⟨_, if_pos ⟨by omega, by omega⟩, ?_⟩
    rw [BitField.sets_filled, List.map_map, show (n + 7) / 8 * 8 = n by omega]
    have same : ∀ k ∈ List.range n, (UInt32.toNat ∘ UInt32.ofNat) k = k := by
      intro k member
      have below := List.mem_range.mp member
      exact BitField.toNat_ofNat (by omega)
    rw [List.map_congr_left same, List.map_id']

/-- **When a full bit field claims exactly the pieces that exist**, and a peer is known to have exactly
these after `HaveAll`: if the number of pieces is a multiple of eight, an index of 32 bits can count to
it, and the slice can be made. -/
theorem full_bitField_iff {σ : Type} (net : NetIP) (maxBytes : Nat) {n : Nat} (machine : n < 2 ^ 63) :
    ((∃ bf, BitField.new maxBytes n true = some bf ∧
        (BitField.sets bf).map UInt32.toNat = List.range n) ∧
      ∀ (fd : BlockDownloadHandler σ) (pc : Conn) (w : σ), 1 ≤ n → fd.pieceNum = n →
        pc.extBits.isSupportFast = true →
        ∃ pc', handleMessage net (fd.handler maxBytes) { type := mTypeHaveAll } (pc, w) =
            (none, (pc', w), [.haveAll]) ∧
          ∀ i, pc'.peerHasPiece i = true ↔ i.toNat < n) ↔
      n % 8 = 0 ∧ n ≤ 2 ^ 32 ∧ n / 8 ≤ maxBytes := by
  rw [sets_full_iff machine]
  refine ⟨And.left, fun fine => ⟨fine, ?_⟩⟩
  obtain ⟨whole, small, room⟩ := fine
  intro fd pc w some' count fast
  have handled := handle_haveAll net fd maxBytes some' machine count fast w
  rw [if_pos ⟨by omega, by omega⟩] at handled
  refine ⟨_, handled, fun i => BitField.isSet_filled.trans ?_⟩
  rw [BitField.byteOf_lt_iff]
  omega

theorem full_bitField_eight :
    (∃ bf, BitField.new 1024 (8 : Nat) true = some bf ∧
        (BitField.sets bf).map UInt32.toNat = List.range 8) ∧
      ∀ (fd : BlockDownloadHandler Unit) (pc : Conn) (w : Unit), 1 ≤ 8 → fd.pieceNum = (8 : Nat) →
        pc.extBits.isSupportFast = true →
        ∃ pc', handleMessage noNet (fd.handler 1024) { type := mTypeHaveAll } (pc, w) =
            (none, (pc', w), [.haveAll]) ∧
          ∀ i, pc'.peerHasPiece i = true ↔ i.toNat < 8 :=
  (full_bitField_iff noNet 1024 (by decide)).mpr (by decide)

/-- **Of one piece, eight are claimed.** -/
theorem full_bitField_of_one :
    BitField.new 1024 1 true = some [255] ∧
      BitField.sets [255] = [0, 1, 2, 3, 4, 5, 6, 7] ∧
      (handleMessage noNet (onePiece.handler 1024) { type := mTypeHaveAll }
        (fastConn, ())).2.1.1.peerHasPiece 7 = true := by
  decide

end GoBt.Downloader
