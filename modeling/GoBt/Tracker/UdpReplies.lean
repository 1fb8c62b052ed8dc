/-
**The replies of the UDP tracker** (`tracker/udptracker`, `tracker/tracker.go`).

The server writes a reply behind eight bytes of header; the client reads the datagram into its buffer
and parses it.

* `DecodesTo` — what the client makes of a datagram that fits into its buffer.
* `announce_decodesTo`, `scrape_decodesTo` — the two replies.
* `fromUDPScrapeResponse` — the map from info hashes to results.
* **`replies_decode`** — the client gets what the server sent, and the results stand at the info
  hashes in the order of the request.
-/

import GoBt.Lib.GoMap
import GoBt.Tracker.Agreement
import GoBt.Tracker.UdpClient
import GoBt.Tracker.UdpServer

namespace GoBt.Tracker

open GoBt.Lib GoBt.Krpc GoBt.Metainfo
open Server (encodeResponseHeader localPeer sendAnnounceResp sendScrapResp)

/-! ### The header of a reply -/

section Header

variable (action tid : UInt32) (body : List UInt8)

theorem length_encodeResponseHeader : (encodeResponseHeader action tid).length = 8 := by
  simp [encodeResponseHeader]

theorem replyAction_reply : replyAction (encodeResponseHeader action tid ++ body) = action := by
  rw [replyAction, encodeResponseHeader, List.append_assoc, cut_front (length_bePut _ _),
    beUInt32_bePut]

theorem replyTid_reply : replyTid (encodeResponseHeader action tid ++ body) = tid := by
  rw [replyTid, encodeResponseHeader, List.append_assoc, cut_skip (by simp), length_bePut,
    cut_front (length_bePut _ _), beUInt32_bePut]

theorem drop_reply : (encodeResponseHeader action tid ++ body).drop 8 = body :=
  List.drop_left' (length_encodeResponseHeader action tid)

end Header

theorem throughHeader_reply {α : Type} {action tid : UInt32} {unexpected : GoString} {least : Nat}
    {body : List UInt8} {content : Except Stop α} (long : least ≤ 8 + body.length) :
    throughHeader action tid unexpected least (encodeResponseHeader action tid ++ body) content =
      content := by
  have size : (encodeResponseHeader action tid ++ body).length = 8 + body.length := by
    rw [List.length_append, length_encodeResponseHeader]
  exact throughHeader_of_content (replyAction_reply action tid body) (by omega) (by omega)
    (replyTid_reply action tid body)

/-! ### Reading a reply -/

/-- **What the client makes of a datagram.** It is parsed to `a`, whatever stands behind it in the
buffer; and so it is when it is read from the connection, if it fits into the buffer. -/
structure DecodesTo {α : Type} (d : List UInt8) (parse : Window UInt8 → Except Stop α) (a : α) :
    Prop where
  whole : ∀ beyond, parse (Window.of d beyond) = .ok a
  read : ∀ (ex : Exchange) (c : Client), ex.wait = .datagram d →
    { c.conn with clock := c.conn.clock + ex.waitDelay : Conn }.expired = false →
    d.length ≤ c.bufSize →
    ((Client.readResp ex c.bufSize >>= fun data => ClientM.lift (parse data)) c).1 = .ok a

theorem decodesTo_of_whole {α : Type} {d : List UInt8} {parse : Window UInt8 → Except Stop α} {a : α}
    (whole : ∀ beyond, parse (Window.of d beyond) = .ok a) : DecodesTo d parse a := by
  refine ⟨whole, fun ex c arrives inTime fits => ?_⟩
  have got : Client.readResp ex c.bufSize c =
      (.ok (Window.of d (List.replicate (c.bufSize - d.length) 0)),
        { c with conn := { c.conn with clock := c.conn.clock + ex.waitDelay } }, [.read d]) := by
    unfold Client.readResp
    rw [arrives]
    dsimp only
    rw [inTime, if_neg (by decide), List.take_of_length_le fits]
  rw [ClientM.bind_ok got]
  exact whole _

theorem announce_decodesTo (raddr : UdpAddr) (tid : UInt32) {resp : AnnounceResponse}
    (family : ∀ a ∈ resp.addresses, (formOf raddr.ip.to4.isSome a.ip).isSome = true) :
    ∃ d, sendAnnounceResp raddr tid resp = Server.send raddr d ∧
      DecodesTo d (announceReply tid raddr.ip.to4.isSome)
        { resp with addresses := resp.addresses.map (.inForm (formOf raddr.ip.to4.isSome)) } := by
  obtain ⟨body, encoded, decodes⟩ := AnnounceResponse.decodeFrom_encodeTo family
  have sent : sendAnnounceResp raddr tid resp =
      Server.send raddr (encodeResponseHeader actionAnnounce tid ++ body) := by
    rw [sendAnnounceResp, encoded]
    rfl
  have decoded := decodes (Window.of body []) (Window.items_of body [])
  have long : 12 ≤ body.length := by
    by_contra short
    rw [AnnounceResponse.decodeFrom_of_lt (by rw [Window.len_of]; omega)] at decoded
    cases decoded
  rw [AnnounceResponse.decodeFrom_of_le (by rw [Window.len_of]; omega), Window.items_of] at decoded
  refine ⟨_, sent, decodesTo_of_whole fun beyond => ?_⟩
  rw [announceReply_eq, Window.items_of, Window.len_of, throughHeader_reply (by omega), drop_reply,
    List.length_append, length_encodeResponseHeader, if_neg (by omega), Except.ok.inj decoded]

namespace ScrapeResponse

@[simp] theorem length_encodeTo (r : ScrapeResponse) : r.encodeTo.length = 12 := by
  simp [encodeTo]

theorem ofBody_encodeTo (r : ScrapeResponse) : ofBody r.encodeTo = r := by
  have seeders : cut r.encodeTo 0 4 = bePut 4 r.seeders.toNat := cut_front (length_bePut _ _)
  have completed : cut r.encodeTo 4 8 = bePut 4 r.completed.toNat := by
    rw [encodeTo, cut_skip (by simp), length_bePut]
    exact cut_front (length_bePut _ _)
  have leechers : cut r.encodeTo 8 12 = bePut 4 r.leechers.toNat := by
    rw [encodeTo, cut_skip (by simp), length_bePut, cut_skip (by simp), length_bePut]
    simp [cut]
  rw [ofBody, seeders, completed, leechers, beUInt32_bePut, beUInt32_bePut, beUInt32_bePut]

end ScrapeResponse

theorem scrapedOf_encoded (rs : List ScrapeResponse) :
    scrapedOf (rs.map ScrapeResponse.encodeTo).flatten = rs := by
  have size : ∀ r ∈ rs, r.encodeTo.length = 12 := fun r _ => r.length_encodeTo
  have count : (rs.flatMap ScrapeResponse.encodeTo).length / 12 =
      blockCount (rs.flatMap ScrapeResponse.encodeTo).length 12 := by
    rw [blockCount_eq _ _ (by decide), length_flatMap_of_size size, Nat.mul_mod_left,
      if_neg (by decide)]
  rw [← List.flatMap_def, scrapedOf, count]
  have parts := congrArg (List.map ScrapeResponse.ofBody) (blocks_flatMap (by decide) size)
  rw [blocks, List.map_map, List.map_map] at parts
  refine parts.trans ?_
  simp [Function.comp_def, ScrapeResponse.ofBody_encodeTo]

theorem scrape_decodesTo (raddr : UdpAddr) (tid : UInt32) (rs : List ScrapeResponse) :
    ∃ d, sendScrapResp raddr tid rs = Server.send raddr d ∧ DecodesTo d (scrapeReply tid) rs := by
  refine ⟨_, rfl, decodesTo_of_whole fun beyond => ?_⟩
  rw [scrapeReply_eq, Window.items_of, throughHeader_reply (by omega), drop_reply, scrapedOf_encoded]

/-! ### Results by info hash -/

structure ScrapeResponseResult where
  seeders : UInt32
  leechers : UInt32
  completed : UInt32
  deriving DecidableEq

/-- The result that a response carries. -/
def ScrapeResponseResult.ofUDP (r : ScrapeResponse) : ScrapeResponseResult where
  seeders := r.seeders
  leechers := r.leechers
  completed := r.completed

/-- `sr.FromUDPScrapeResponse(hs, r)`. The loop ends with the shorter of the two. -/
def fromUDPScrapeResponse (sr : GoMap Hash ScrapeResponseResult) (hs : List Hash)
    (r : List ScrapeResponse) : GoMap Hash ScrapeResponseResult :=
  GoMap.insertAll sr (hs.zip (r.map .ofUDP))

section Results

variable {hs : List Hash} {rs : List ScrapeResponse} (sr : GoMap Hash ScrapeResponseResult)

theorem keys_zip : (hs.zip (rs.map ScrapeResponseResult.ofUDP)).map Prod.fst =
    hs.take rs.length := by
  induction hs generalizing rs with
  | nil => simp
  | cons h hs ih =>
    cases rs with
    | nil => rfl
    | cons r rs => simp [ih]

theorem lookup_fromUDPScrapeResponse (distinct : hs.Nodup) {i : Nat} {h : Hash} {r : ScrapeResponse}
    (asked : hs[i]? = some h) (answered : rs[i]? = some r) :
    (fromUDPScrapeResponse sr hs rs).lookup h = some (.ofUDP r) := by
  refine GoMap.lookup_insertAll_of_mem ?_ ?_ sr
  · rw [keys_zip]
    exact distinct.sublist (List.take_sublist _ _)
  · refine List.mem_iff_getElem?.mpr ⟨i, ?_⟩
    rw [List.getElem?_zip_eq_some, List.getElem?_map, answered]
    exact ⟨asked, rfl⟩

theorem lookup_fromUDPScrapeResponse_of_not_mem {h : Hash} (absent : h ∉ hs.take rs.length) :
    (fromUDPScrapeResponse sr hs rs).lookup h = sr.lookup h := by
  refine GoMap.lookup_insertAll_of_not_mem ?_ sr
  rwa [keys_zip]

end Results

/-- **Replies decode to what the server sent.** An announce reply with addresses of the requester's
family is read with the same counts, and the addresses in the form of the family; a scrape reply is
read as the same list; and the map that is made of it has the `i`-th result at the `i`-th of the info
hashes, and is otherwise what it was. -/
theorem replies_decode (raddr : UdpAddr) (tid : UInt32) :
    (∀ resp : AnnounceResponse,
      (∀ a ∈ resp.addresses, (formOf raddr.ip.to4.isSome a.ip).isSome = true) →
      ∃ d, sendAnnounceResp raddr tid resp = Server.send raddr d ∧
        DecodesTo d (announceReply tid raddr.ip.to4.isSome)
          { resp with addresses := resp.addresses.map (.inForm (formOf raddr.ip.to4.isSome)) }) ∧
    ∀ rs : List ScrapeResponse,
      (∃ d, sendScrapResp raddr tid rs = Server.send raddr d ∧ DecodesTo d (scrapeReply tid) rs) ∧
      ∀ (sr : GoMap Hash ScrapeResponseResult) (hs : List Hash), hs.Nodup →
        (∀ (i : Nat) h r, hs[i]? = some h → rs[i]? = some r →
          (fromUDPScrapeResponse sr hs rs).lookup h = some (.ofUDP r)) ∧
        ∀ h ∉ hs.take rs.length, (fromUDPScrapeResponse sr hs rs).lookup h = sr.lookup h := by
  refine ⟨fun _ family => announce_decodesTo raddr tid family, fun rs =>
    ⟨scrape_decodesTo raddr tid rs, fun sr hs distinct => ⟨?_, ?_⟩⟩⟩
  · intro i h r asked answered
    exact lookup_fromUDPScrapeResponse sr distinct asked answered
  · intro h absent
    exact lookup_fromUDPScrapeResponse_of_not_mem sr absent

/-- A reply with two peers, and the results of two torrents of which one is answered. -/
theorem two_replies_decode :
    let resp : AnnounceResponse :=
      { interval := 30, addresses := [⟨[127, 0, 0, 1], 6881⟩, ⟨[127, 0, 0, 2], 6882⟩] }
    let result : ScrapeResponse := { seeders := 1, leechers := 2, completed := 3 }
    let files := fromUDPScrapeResponse ∅ [.copyFrom [1], .copyFrom [2]] [result]
    (∃ d, sendAnnounceResp localPeer 7 resp = Server.send localPeer d ∧
        DecodesTo d (announceReply 7 true) resp) ∧
      files.lookup (.copyFrom [1]) = some ⟨1, 2, 3⟩ ∧ files.lookup (.copyFrom [2]) = none := by
  intro resp result files
  obtain ⟨announces, scrapes⟩ := replies_decode localPeer 7
  obtain ⟨found, others⟩ := (scrapes [result]).2 ∅ [.copyFrom [1], .copyFrom [2]] (by decide)
  exact ⟨announces resp (by decide), found 0 _ _ rfl rfl, others (.copyFrom [2]) (by decide)⟩

end GoBt.Tracker
