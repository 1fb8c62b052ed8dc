/-
**An announce from the UDP client to the UDP server** (`tracker/udptracker`).

The client has one layout for both IP families. The server asks for 82 bytes behind the header if the
sender's address is an IPv4 one, and for 94 if it is not, though the request that it then decodes has
82 bytes in front of the extensions.

* `announce_delivered_iff` — what the client sends reaches `OnAnnounce` as it was asked for, exactly
  if the client's address is an IPv4 one or the extensions fill the twelve bytes.
-/

import GoBt.Tracker.UdpClient
import GoBt.Tracker.UdpServer

namespace GoBt.Tracker

open GoBt.Lib GoBt.Krpc GoBt.Metainfo

namespace Server

open Prog
open Client (announceDatagram)

/-! ### Calls of the handler -/

/-- The calls of `OnAnnounce` in a list of events. -/
def announced (events : List (Event ServerOp ServerOp.Ans)) : List (UdpAddr × AnnounceRequest) :=
  events.filterMap fun event => match event.op with
    | .onAnnounce raddr req => some (raddr, req)
    | _ => none

variable {s : Server} {outside : Outside} {raddr : UdpAddr} {tid : UInt32} {d : List UInt8}
  {b : Window UInt8}

theorem announced_send (bytes : List UInt8) :
    announced (exec serverSystem outside (send raddr bytes) s).2.2 = [] := rfl

theorem announced_handler (req : AnnounceRequest) :
    announced (exec serverSystem outside (do
      match ← onAnnounce raddr req with
      | .error err => sendError raddr tid err
      | .ok resp => sendAnnounceResp raddr tid resp) s).2.2 = [(raddr, req)] := by
  have answers : serverSystem.answer outside s (.onAnnounce raddr req) =
      some (outside.onAnnounce raddr req) := rfl
  show announced (exec serverSystem outside (.call (.onAnnounce raddr req) _) s).2.2 = _
  rw [exec_call answers]
  show (raddr, req) :: announced _ = _
  congr 1
  cases outside.onAnnounce raddr req with
  | error err => exact announced_send _
  | ok resp =>
    show announced (exec serverSystem outside (sendAnnounceResp raddr tid resp) _).2.2 = []
    unfold sendAnnounceResp
    cases resp.encodeTo raddr.ip.to4.isSome with
    | error p => rfl
    | ok body => exact announced_send _

theorem announced_short (short : b.len < announceSize raddr) :
    announced (exec serverSystem outside (handleAnnounce raddr tid b) s).2.2 = [] := by
  rw [handleAnnounce, if_pos short]
  exact announced_send _

/-! ### End to end -/

theorem announced_packet (outside : Outside) (tid : UInt32) {cid : UInt64}
    (issued : s.connected cid raddr = true) (body beyond : List UInt8) :
    ∃ rest : Window UInt8, rest.items = body ∧
      announced (exec serverSystem outside (handlePacket raddr
          (Window.of (requestHeader cid actionAnnounce tid ++ body) beyond)) s).2.2 =
        announced (exec serverSystem outside (handleAnnounce raddr tid rest) s).2.2 := by
  obtain ⟨rest, left, eq⟩ := handlePacket_eq raddr
    (b := Window.of (requestHeader cid actionAnnounce tid ++ body) beyond)
    (by rw [Window.len_of, List.length_append, length_requestHeader]; omega)
  rw [Window.items_of] at left eq
  rw [cidOf_request, actionOf_request, tidOf_request] at eq
  refine ⟨rest, by rw [left, drop_requestHeader], ?_⟩
  rw [eq, exec_dispatch fun connect => absurd connect.2 (by decide), issued]
  rfl

theorem drop_body (cid : UInt64) (action tid : UInt32) (body : List UInt8) :
    (requestHeader cid action tid ++ body).drop 98 = body.drop 82 := by
  rw [show 98 = 16 + 82 from rfl, ← List.drop_drop, drop_requestHeader]

/-- **Where the family matters**: the datagram that the client builds for a request makes the server
call `OnAnnounce` with that request, once, exactly if the client's address is an IPv4 one or the
extensions have twelve bytes. -/
theorem announce_delivered_iff (s : Server) (outside : Outside) (raddr : UdpAddr) (cid : UInt64)
    (tid : UInt32) (req : AnnounceRequest) (beyond : List UInt8)
    (consistent : ∀ ext ∈ req.exts, ext.Consistent) (issued : s.connected cid raddr = true) :
    ∃ d, announceDatagram cid tid req = .ok d ∧
      (announced (exec serverSystem outside (handlePacket raddr (Window.of d beyond)) s).2.2 =
          [(raddr, req.normalised)] ↔
        raddr.ip.to4.isSome = true ∨ 12 ≤ extsSize req.exts) := by
  obtain ⟨body, encoded, size, fields, tail⟩ := AnnounceRequest.encodeTo_of_consistent consistent
  refine ⟨requestHeader cid actionAnnounce tid ++ body, by rw [announceDatagram, encoded]; rfl, ?_⟩
  obtain ⟨rest, left, dispatched⟩ := announced_packet outside tid issued body beyond
  have length : rest.len = 82 + extsSize req.exts := by rw [← rest.length_items, left, size]
  rw [dispatched]
  by_cases long : announceSize raddr ≤ rest.len
  · have shows : rest.items = (requestHeader cid actionAnnounce tid ++ body).drop 16 := by
      rw [left, drop_requestHeader]
    rw [← drop_body cid actionAnnounce tid] at tail
    rw [handleAnnounce_of_tail shows long tail, drop_requestHeader, fields]
    refine iff_of_true (announced_handler _) ?_
    unfold announceSize at long
    split at long
    · exact Or.inl ‹_›
    · exact Or.inr (by omega)
  · rw [announced_short (Nat.not_le.mp long)]
    refine iff_of_false (by simp) ?_
    unfold announceSize at long
    split at long
    · omega
    · rename_i six
      exact fun either => either.elim six (by omega)

/-- A request with an extension of twelve bytes, to a peer that speaks IPv6. -/
def localPeer6 : UdpAddr := ⟨List.replicate 15 0 ++ [1], 6881⟩

def urlRequest : AnnounceRequest where
  infoHash := .copyFrom [3]
  peerID := .copyFrom [2]
  exts := [{ type := 2, length := 10, data := str "/announce?" }]

theorem long_announce_delivered :
    (∀ ext ∈ urlRequest.exts, ext.Consistent) ∧
      (serverOfPeer localPeer6).connected 1 localPeer6 = true ∧
      ∃ d, announceDatagram 1 7 urlRequest = .ok d ∧
        announced (exec serverSystem acceptAll (handlePacket localPeer6 (Window.of d []))
          (serverOfPeer localPeer6)).2.2 = [(localPeer6, urlRequest.normalised)] := by
  have consistent : ∀ ext ∈ urlRequest.exts, ext.Consistent := by
    simp [urlRequest, Extension.Consistent, str]
  have issued : (serverOfPeer localPeer6).connected 1 localPeer6 = true := by decide +kernel
  obtain ⟨d, sent, delivered⟩ :=
    announce_delivered_iff _ acceptAll _ 1 7 urlRequest [] consistent issued
  exact ⟨consistent, issued, d, sent, delivered.mpr (.inr (by decide))⟩

/-- **An IPv6 client without extensions is refused**, though the server has given it the id. -/
theorem short_announce_refused :
    (serverOfPeer localPeer6).connected 1 localPeer6 = true ∧
      ∃ d, announceDatagram 1 7 { infoHash := .copyFrom [3], peerID := .copyFrom [2] } = .ok d ∧
        announced (exec serverSystem acceptAll (handlePacket localPeer6 (Window.of d []))
          (serverOfPeer localPeer6)).2.2 = [] :=
  ⟨by decide +kernel, _, rfl, by decide +kernel⟩

end Server

end GoBt.Tracker
