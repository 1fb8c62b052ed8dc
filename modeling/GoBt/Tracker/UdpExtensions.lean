/-
**The extensions of an announce request** (`tracker/udptracker/udp.go`, `tracker/tracker.go`).

The length of an extension is a byte, and the data is written in full whatever its length is.

* `newEndOfOptions`, `newNop`, `newURLData` — the extensions that the package makes.
* `encodeExts_of_built` — none of them makes the encoder panic.
* `tail_same_iff` — the decoder reads the same extensions exactly if the lengths fit into their bytes.
* `clientExts` — what `tracker.NewClient` makes of the request URI.
* **`extensions_survive_iff`** — the extensions of a request are decoded again, and the request URI
  reaches the server, exactly if there are fewer than 256 bytes of data.
-/

import GoBt.Tracker.UdpAnnounce

namespace GoBt.Tracker

open GoBt.Lib GoBt.Krpc GoBt.Metainfo

/-! ### Extensions -/

namespace Extension

def newEndOfOptions : Extension := { type := 0 }

def newNop : Extension := { type := 1 }

/-- `NewURLData(data)`, with `uint8(len(data))`. -/
def newURLData (data : List UInt8) : Extension :=
  { type := 2, length := UInt8.ofNat data.length, data := data }

/-- An extension that one of these functions has made. -/
inductive Built : Extension → Prop
  | endOfOptions : Built newEndOfOptions
  | nop : Built newNop
  | urlData (data : List UInt8) : Built (newURLData data)

def content (e : Extension) : UInt8 × List UInt8 := (e.type, e.data)

theorem Built.length_eq {e : Extension} (built : e.Built) :
    e.length = UInt8.ofNat e.data.length := by
  cases built <;> rfl

theorem Built.encodeTo {e : Extension} (built : e.Built) :
    e.encodeTo = .ok (e.type :: e.length :: e.data) := by
  simp only [Extension.encodeTo, ← built.length_eq]
  rw [if_neg fun missing => missing.2 missing.1, if_neg fun different => different rfl]

theorem Built.consistent_iff {e : Extension} (built : e.Built) :
    e.Consistent ↔ e.data.length < 256 := by
  rw [Consistent, built.length_eq, UInt8.toNat_ofNat']
  omega

end Extension

open Extension (newURLData)

variable {exts : List Extension}

theorem encodeExts_of_built (built : ∀ e ∈ exts, e.Built) :
    encodeExts exts = .ok (exts.flatMap fun e => e.type :: e.length :: e.data) := by
  induction exts with
  | nil => rfl
  | cons e rest ih =>
    obtain ⟨here, later⟩ := List.forall_mem_cons.mp built
    rw [encodeExts, here.encodeTo, ih later]
    rfl

/-- **What the decoder makes of them**: the same extensions exactly if the data of all of them is
short. -/
theorem tail_same_iff (built : ∀ e ∈ exts, e.Built) :
    (∃ exts', ExtensionTail (exts.flatMap fun e => e.type :: e.length :: e.data) exts' ∧
        exts'.map Extension.content = exts.map Extension.content) ↔
      ∀ e ∈ exts, e.data.length < 256 := by
  constructor
  · rintro ⟨exts', encodes, same⟩
    induction exts generalizing exts' with
    | nil => simp
    | cons e rest ih =>
      obtain ⟨here, later⟩ := List.forall_mem_cons.mp built
      rw [List.flatMap_cons, List.cons_append, List.cons_append] at encodes
      obtain ⟨fits, rest', encodes', rfl⟩ := ExtensionTail.cons_iff.mp encodes
      rw [List.map_cons, List.map_cons] at same
      obtain ⟨first, others⟩ := List.cons.inj same
      -- the data that is read has the length that was written
      have data : (e.data ++ rest.flatMap fun e => e.type :: e.length :: e.data).take
          e.length.toNat = e.data := (Prod.mk.inj first).2
      have size : e.data.length = e.length.toNat := by
        rw [← congrArg List.length data, List.length_take_of_le fits]
      rw [List.drop_left' size] at encodes'
      exact List.forall_mem_cons.mpr ⟨here.consistent_iff.mp size, ih later _ encodes' others⟩
  · intro short
    have consistent : ∀ e ∈ exts, e.Consistent := fun e member =>
      (built e member).consistent_iff.mpr (short e member)
    obtain ⟨bytes, written, encodes, _⟩ := encodeExts_of_consistent consistent
    rw [encodeExts_of_built built] at written
    exact ⟨exts, Except.ok.inj written ▸ encodes, rfl⟩

/-! ### The client of the package `tracker` -/

/-- `tracker.AnnounceRequest`. -/
structure CommonRequest where
  infoHash : Hash
  peerID : Hash
  uploaded : Int64 := 0
  downloaded : Int64 := 0
  left : Int64 := 0
  event : UInt32 := 0
  ip : Ip := []
  key : Int32 := 0
  numWant : Int32 := 0
  port : UInt16 := 0

def CommonRequest.toUDPAnnounceRequest (ar : CommonRequest) : AnnounceRequest where
  infoHash := ar.infoHash
  peerID := ar.peerID
  downloaded := ar.downloaded
  left := ar.left
  uploaded := ar.uploaded
  event := ar.event
  key := ar.key
  numWant := ar.numWant
  port := ar.port

/-- The extensions of a client, from the request URI of its URL. -/
def clientExts (uri : GoString) : List Extension := if uri ≠ [] then [newURLData uri] else []

/-- The request that a client with an id and a request URI sends. -/
def clientRequest (id : Hash) (uri : GoString) (ar : CommonRequest) : AnnounceRequest :=
  { ar.toUDPAnnounceRequest with exts := clientExts uri, peerID := id }

theorem built_clientExts (uri : GoString) : ∀ e ∈ clientExts uri, e.Built := by
  unfold clientExts
  split
  · exact List.forall_mem_singleton.mpr (.urlData uri)
  · simp

theorem clientExts_short_iff (uri : GoString) :
    (∀ e ∈ clientExts uri, e.data.length < 256) ↔ uri.length < 256 := by
  unfold clientExts
  split
  · exact List.forall_mem_singleton
  · rename_i empty
    rw [not_not] at empty
    simp [empty]

theorem length_clientExts (uri : GoString) :
    ((clientExts uri).flatMap fun e => e.type :: e.length :: e.data).length =
      if uri = [] then 0 else uri.length + 2 := by
  unfold clientExts
  by_cases empty : uri = [] <;> simp [empty, newURLData]

/-! ### From the client to the server -/

namespace Server

open Prog
open Client (announceDatagram)

/-- The server calls `OnAnnounce` once, with the extensions `exts`. -/
def Delivered (s : Server) (outside : Outside) (raddr : UdpAddr) (b : Window UInt8)
    (exts : List Extension) : Prop :=
  ∃ req, announced (exec serverSystem outside (handlePacket raddr b) s).2.2 = [(raddr, req)] ∧
    req.exts.map Extension.content = exts.map Extension.content

/-- **What the server makes of a request**: it is handed over with its extensions exactly if their
data is short and the datagram has the bytes that the server demands. -/
theorem delivered_iff {s : Server} {raddr : UdpAddr} {cid : UInt64} (outside : Outside) (tid : UInt32)
    {req : AnnounceRequest} (built : ∀ e ∈ req.exts, e.Built)
    (issued : s.connected cid raddr = true) (beyond : List UInt8) :
    ∃ d, announceDatagram cid tid req = .ok d ∧
      (Delivered s outside raddr (Window.of d beyond) req.exts ↔
        (∀ e ∈ req.exts, e.data.length < 256) ∧ announceSize raddr ≤
          82 + (req.exts.flatMap fun e => e.type :: e.length :: e.data).length) := by
  obtain ⟨body, encoded, size, _, tail⟩ :=
    AnnounceRequest.encodeTo_of_exts (encodeExts_of_built built)
  refine ⟨requestHeader cid actionAnnounce tid ++ body, by rw [announceDatagram, encoded]; rfl, ?_⟩
  obtain ⟨rest, left, dispatched⟩ := announced_packet outside tid issued body beyond
  have shows : rest.items = (requestHeader cid actionAnnounce tid ++ body).drop 16 := by
    rw [left, drop_requestHeader]
  rw [Delivered, dispatched, ← size, ← left, rest.length_items, ← tail_same_iff built]
  rw [← tail, ← drop_body cid actionAnnounce tid body]
  by_cases long : announceSize raddr ≤ rest.len
  · by_cases valid : ∃ exts, ExtensionTail ((requestHeader cid actionAnnounce tid ++ body).drop 98) exts
    · obtain ⟨exts, encodes⟩ := valid
      have calls : announced (exec serverSystem outside (handleAnnounce raddr tid rest) s).2.2 =
          [(raddr, .ofBody body exts)] := by
        rw [handleAnnounce_of_tail shows long encodes, drop_requestHeader]
        exact announced_handler _
      rw [calls]
      constructor
      · rintro ⟨decoded, call, same⟩
        obtain ⟨_, rfl⟩ := Prod.mk.inj (List.cons.inj call).1
        exact ⟨⟨exts, encodes, same⟩, long⟩
      · rintro ⟨⟨exts', encodes', same⟩, _⟩
        obtain rfl := encodes.unique encodes'
        exact ⟨_, rfl, same⟩
    · rw [handleAnnounce_of_overrun shows long fun exts encodes => valid ⟨exts, encodes⟩]
      refine iff_of_false ?_ fun both => valid (both.1.imp fun _ fine => fine.1)
      rintro ⟨_, calls, _⟩
      cases calls
  · rw [announced_short (Nat.not_le.mp long)]
    refine iff_of_false ?_ fun both => long both.2
    rintro ⟨_, calls, _⟩
    cases calls

/-- **When extensions survive.** Those that the package makes are decoded with their types and data
exactly if all data has fewer than 256 bytes; and the request URI of a client reaches the server exactly
if it has fewer than 256 bytes, and ten if the client speaks IPv6. -/
theorem extensions_survive_iff (beyond : List UInt8) :
    (∀ r : AnnounceRequest, (∀ e ∈ r.exts, e.Built) →
      ∃ bytes, r.encodeTo = .ok bytes ∧
        ((∃ r', AnnounceRequest.decodeFrom (Window.of bytes beyond) = .ok r' ∧
            r'.exts.map Extension.content = r.exts.map Extension.content) ↔
          ∀ e ∈ r.exts, e.data.length < 256)) ∧
    ∀ (s : Server) (outside : Outside) (raddr : UdpAddr) (cid : UInt64) (tid : UInt32) (id : Hash)
      (uri : GoString) (ar : CommonRequest), s.connected cid raddr = true →
      ∃ d, announceDatagram cid tid (clientRequest id uri ar) = .ok d ∧
        (Delivered s outside raddr (Window.of d beyond) (clientExts uri) ↔
          uri.length < 256 ∧ (raddr.ip.to4.isSome = true ∨ 10 ≤ uri.length)) := by
  constructor
  · intro r built
    obtain ⟨bytes, encoded, size, _, tail⟩ :=
      AnnounceRequest.encodeTo_of_exts (encodeExts_of_built built)
    have long : 82 ≤ (Window.of bytes beyond).len := by
      rw [Window.len_of, size]
      omega
    obtain ⟨rest, left, decodes⟩ := AnnounceRequest.decodeFrom_of_le long
    rw [Window.items_of] at left decodes
    refine ⟨bytes, encoded, ?_⟩
    rw [decodes, ← tail_same_iff built, ← tail, ← left]
    constructor
    · rintro ⟨r', decoded, same⟩
      cases found : decodeExts rest.len rest with
      | error panic =>
          rw [found] at decoded
          cases decoded
      | ok exts =>
          rw [found] at decoded
          obtain rfl : AnnounceRequest.ofBody bytes exts = r' := Except.ok.inj decoded
          exact ⟨exts, decodeExts_eq_ok_iff.mp found, same⟩
    · rintro ⟨exts, encodes, same⟩
      rw [decodeExts_eq_ok_iff.mpr encodes]
      exact ⟨_, rfl, same⟩
  · intro s outside raddr cid tid id uri ar issued
    obtain ⟨d, sent, delivered⟩ := delivered_iff outside tid
      (show ∀ e ∈ (clientRequest id uri ar).exts, e.Built from built_clientExts uri) issued beyond
    refine ⟨d, sent, delivered.trans (and_congr (clientExts_short_iff uri) ?_)⟩
    show announceSize raddr ≤ 82 + ((clientExts uri).flatMap _).length ↔ _
    rw [length_clientExts, announceSize]
    by_cases empty : uri = []
    · split <;> simp_all
    · rw [if_neg empty]
      by_cases four : raddr.ip.to4.isSome = true
      · rw [if_pos four]
        exact iff_of_true (by omega) (.inl four)
      · rw [if_neg four]
        refine ⟨fun long => .inr (by omega), ?_⟩
        rintro (four' | long)
        · exact absurd four' four
        · omega

theorem short_uri_survives :
    let req := clientRequest (.copyFrom [2]) (str "/a?k=1") { infoHash := zeroHash, peerID := zeroHash }
    (∃ bytes r', req.encodeTo = .ok bytes ∧ AnnounceRequest.decodeFrom (Window.of bytes []) = .ok r' ∧
        r'.exts.map Extension.content = req.exts.map Extension.content) ∧
      ∃ d, announceDatagram 1 7 req = .ok d ∧
        Delivered (serverOfPeer localPeer) acceptAll localPeer (Window.of d [])
          (clientExts (str "/a?k=1")) := by
  intro req
  obtain ⟨encodes, reaches⟩ := extensions_survive_iff []
  obtain ⟨bytes, encoded, survives⟩ := encodes req (built_clientExts (str "/a?k=1"))
  obtain ⟨r', decoded, same⟩ := survives.mpr (by decide)
  obtain ⟨d, sent, delivered⟩ := reaches (serverOfPeer localPeer) acceptAll localPeer 1 7
    (.copyFrom [2]) (str "/a?k=1") { infoHash := zeroHash, peerID := zeroHash } (by decide +kernel)
  exact ⟨⟨bytes, r', encoded, decoded, same⟩, d, sent, delivered.mpr (by decide)⟩

/-- What the server is handed of the extensions of a datagram. -/
def contents (s : Server) (raddr : UdpAddr) (d : List UInt8) : List (List (UInt8 × List UInt8)) :=
  (announced (exec serverSystem acceptAll (handlePacket raddr (Window.of d [])) s).2.2).map
    fun call => call.2.exts.map Extension.content

/-- **A request URI of 256 bytes**: its length is written as zero, and what is decoded is an extension
without data and then extensions that nobody sent. -/
theorem long_uri_lost :
    ((announceDatagram 1 7 (clientRequest zeroHash (List.replicate 256 0)
        { infoHash := .copyFrom [3], peerID := zeroHash })).toOption.map
          (contents (serverOfPeer localPeer) localPeer)) =
      some [(2, []) :: List.replicate 128 (0, [])] := by
  decide +kernel

end Server

end GoBt.Tracker
