/-
**The DHT server.**

The functions of the server as programs over its state that emit effects. What the server does not
decide itself is an argument: the time, what the user's hooks and the socket answer, whether an
address is blacklisted, the order in which a loop visits a map (`Env`).

* `Server`, `newServer` — the state and how it starts.
* `send`, `reply`, `request` — the outgoing side.
* `handleQuery`, `handleMessage`, `handlePacket` — the incoming side.
* `ping`, `getPeers`, `announcePeer`, `findNode` — what the user calls. The source has an internal
  function beside an exported one of the same name; the internal one has a suffix here
  (`addNodeOf`, `getPeersFrom`, `findNodeFrom`).

A call that panics returns `none`.
-/

import GoBt.Dht.Closest
import GoBt.Dht.PeerManager
import GoBt.Dht.TokenManager
import GoBt.Dht.TransactionManager
import GoBt.Lib.Act

namespace GoBt.Dht

open GoBt.Lib GoBt.Metainfo GoBt.Krpc

def queryMethodPing : GoString := str "ping"

def queryMethodFindNode : GoString := str "find_node"

def queryMethodGetPeers : GoString := str "get_peers"

def queryMethodAnnouncePeer : GoString := str "announce_peer"

def errUnsupportedIPProtocol : GoError := .other "unsupported ip protocol"

/-! ### State -/

abbrev IPProtocolStack := UInt8

def ipv4Protocol : IPProtocolStack := 4

def ipv6Protocol : IPProtocolStack := 6

/-- The configuration. `customPeers` says that the user gave a `PeerManager`. -/
structure Config where
  k : Int := 0
  id : Hash := zeroHash
  ipProtocols : List IPProtocolStack := []
  readOnly : Bool := false
  searchDepth : Int := 0
  respTimeout : Duration := 0
  customPeers : Bool := false
  deriving DecidableEq

/-- `c.set(conf)`: the defaults. `random` is the id that `NewRandomHash` returns. -/
def Config.set (conf : Config) (random : Hash) : Config :=
  { conf with
    k := if conf.k ≤ 0 then 8 else conf.k
    id := if conf.id.isZero then random else conf.id
    searchDepth := if conf.searchDepth < 1 then 8 else conf.searchDepth
    respTimeout := if conf.respTimeout = 0 then 10 * 1000000000 else conf.respTimeout }

structure Server where
  conf : Config
  ipv4 : Bool
  ipv6 : Bool
  want : List Want
  routingTable4 : RoutingTable
  routingTable6 : RoutingTable
  tokenManager : TokenManager
  tokenPeerManager : TokenPeerManager
  transactionManager : TransactionManager
  /-- The arrays behind the visited ids of the transactions. -/
  slices : SliceHeap Hash

def ipIsZero (ip : Ip) : Bool := ip.all fun b => b == 0

/-- The protocols of a server that was given none, by the IP it listens on; the nil IP of a host
without one is zero. -/
def defaultProtocols (ip : Ip) : List IPProtocolStack :=
  if ipIsZero ip then [ipv4Protocol, ipv6Protocol]
  else if ip.to4.isSome then [ipv4Protocol]
  else [ipv6Protocol]

/-- What a new server takes from outside: the IP it listens on, the random id and token, and the
nodes in the storage. -/
structure Setup where
  listenIP : Ip := []
  randomID : Hash := Hash.fill 1
  token : GoString := []
  stored4 : List (Node × Time) := []
  stored6 : List (Node × Time) := []
  now : Time := 0

def newServer (config : Config) (setup : Setup) : Server :=
  let conf := config.set setup.randomID
  let protocols := if conf.ipProtocols.length = 0 then defaultProtocols setup.listenIP
    else conf.ipProtocols
  { conf := conf
    ipv4 := protocols.contains ipv4Protocol
    ipv6 := protocols.contains ipv6Protocol
    want := protocols.filterMap fun ip =>
      if ip = ipv4Protocol then some wantNodes
      else if ip = ipv6Protocol then some wantNodes6
      else none
    routingTable4 := RoutingTable.newRoutingTable conf.id conf.k.toNat setup.stored4 setup.now
    routingTable6 := RoutingTable.newRoutingTable conf.id conf.k.toNat setup.stored6 setup.now
    tokenManager := TokenManager.newTokenManager setup.token
    tokenPeerManager := TokenPeerManager.newTokenPeerManager
    transactionManager := TransactionManager.newTransactionManager
    slices := ⟨[]⟩ }

/-! ### The surroundings -/

/-- What `conn.WriteTo` does with a datagram. -/
inductive WriteResult
  | written
  | short
  | failed (err : GoError)
  deriving DecidableEq

/-- What the surroundings answer while the server handles one event. -/
structure Env where
  now : Time := 0
  /-- `HandleInMessage`: the user has handled the message. -/
  handleIn : Addr → Message → Bool := fun _ _ => false
  /-- `HandleOutMessage`: the user has written the message, or an error. -/
  handleOut : Addr → Message → Bool × Option GoError := fun _ _ => (false, none)
  writeTo : Addr → Message → WriteResult := fun _ _ => .written
  /-- `Blacklist.In`. -/
  blacklisted : Addr → Bool := fun _ => false
  /-- `GetPeers` of the user's `PeerManager`. -/
  customPeers : Hash → Int → Bool → List GoString := fun _ _ _ => []
  peerOrder : Bool → GoMap.RangeOrder Peer := fun _ => GoMap.RangeOrder.asStored Peer
  sweepOrder : GoMap.RangeOrder Transaction := GoMap.RangeOrder.asStored Transaction
  /-- The capacity of a slice that grows. -/
  grow : Nat → Nat := fun n => n

/-- What the surroundings see. -/
inductive Effect
  | sent (addr : Addr) (m : Message)
  | blacklistAdd (addr : Addr)
  | onSearch (infohash : GoString) (addr : Addr)
  | onTorrent (infohash addr : GoString)
  | callback (name : Nat) (result : Result)
  deriving DecidableEq

abbrev ServerM := Act Server Effect

namespace Server

/-! ### Sending -/

/-- `s.isDisabled(raddr)`: the address is of a family the server does not speak. -/
def isDisabled (s : Server) (raddr : Addr) : Bool :=
  if raddr.ip.length = 0 then false
  else if isIPv6 raddr.ip then !s.ipv6
  else !s.ipv4

/-- `s._send(kaddr, m)`: write the datagram. -/
def sendPacket (env : Env) (kaddr : Addr) (m : Message) : ServerM (Option GoError) :=
  match env.writeTo kaddr m with
  | .written => pure none
  | .short => pure (some .shortWrite)
  | .failed err => do
      Act.emit (.blacklistAdd kaddr)
      pure (some err)

/-- `s.send(kaddr, m)`: the error. -/
def send (env : Env) (kaddr : Addr) (m : Message) : ServerM (Option GoError) := do
  let s ← Act.get
  let m := { m with ro := s.conf.readOnly }
  Act.emit (.sent kaddr m)
  let hook := env.handleOut kaddr m
  if hook.1 = false ∧ hook.2 = none then sendPacket env kaddr m else pure hook.2

def sendError (env : Env) (raddr : Addr) (tid reason : GoString) (code : Int) : ServerM Unit := do
  let _ ← send env raddr (newErrorMsg tid code reason)

def reply (env : Env) (raddr : Addr) (tid : GoString) (r : ResponseResult) : ServerM Unit := do
  let s ← Act.get
  let _ ← send env raddr (newResponseMsg tid { r with id := s.conf.id })

/-- The first lines of `request`: the transaction gets the id of the server and, if it has none, a
transaction id. -/
def identify (s : Server) (t : Transaction) : Transaction × Server :=
  let fresh := if t.id = [] then s.transactionManager.getTransactionID
    else (t.id, s.transactionManager)
  ({ t with arg := { t.arg with id := s.conf.id }, id := fresh.1, serial := fresh.2.tid },
    { s with transactionManager := fresh.2 })

/-- `s.transactionManager.AddTransaction(t)`. -/
def file (s : Server) (t : Transaction) : Server :=
  { s with transactionManager := s.transactionManager.addTransaction t }

/-- `s.request(t)`: send the query, then file the transaction. -/
def request (env : Env) (t : Transaction) : ServerM (Option GoError) := do
  let s ← Act.get
  if s.isDisabled t.addr then pure (some errUnsupportedIPProtocol)
  else
    let identified := s.identify t
    let t := identified.1
    Act.modify fun _ => identified.2
    let err ← send env t.addr (newQueryMsg t.id t.query t.arg)
    if err = none then Act.modify fun s => s.file t
    pure err

def done (t : Transaction) (r : Result) : ServerM Unit :=
  match t.callback with
  | some name => Act.emit (.callback name { r with addr := some t.addr })
  | none => pure ()

/-! ### Adding nodes -/

def addNode (env : Env) (node : Node) : ServerM AddStatus := do
  let s ← Act.get
  if isIPv6 node.addr.ip then
    if s.ipv6 then
      let added := s.routingTable6.addNode node env.now
      Act.modify fun s => { s with routingTable6 := added.2 }
      pure added.1
    else pure .nodeNotAdded
  else if s.ipv4 then
    let added := s.routingTable4.addNode node env.now
    Act.modify fun s => { s with routingTable4 := added.2 }
    pure added.1
  else pure .nodeNotAdded

/-- `s.addNode(kaddr, id, ro)`: the sender of a message. -/
def addNodeOf (env : Env) (kaddr : Addr) (id : Hash) (ro : Bool) : ServerM AddStatus := do
  if ro then pure .nodeNotAdded
  else
    let r ← addNode env ⟨id, kaddr⟩
    if r = .nodeExistAndChanged then Act.emit (.blacklistAdd kaddr)
    pure r

/-- `s.addNode2(node, ro)`: a node from a response. -/
def addNode2 (env : Env) (node : Node) (ro : Bool) : ServerM AddStatus :=
  if ro then pure .nodeNotAdded else addNode env node

/-! ### Queries -/

/-- `s.peerManager.GetPeers(infohash, K, ipv6)`. -/
def storedPeers (env : Env) (s : Server) (infohash : Hash) (ipv6 : Bool) : List GoString :=
  if s.conf.customPeers then env.customPeers infohash s.conf.k ipv6
  else s.tokenPeerManager.getPeers (env.peerOrder ipv6) infohash s.conf.k ipv6

/-- The closest nodes of the families a querier asks for, or else of its own family; `r` with
`Nodes` and `Nodes6` set. -/
def closestNodes (s : Server) (raddr : Addr) (a : QueryArg) (target : Hash) (r : ResponseResult) :
    ResponseResult :=
  let n4 := a.containsWant wantNodes
  let n6 := a.containsWant wantNodes6
  if !n4 && !n6 then
    if isIPv6 raddr.ip then { r with nodes6 := s.routingTable6.closest target s.conf.k }
    else { r with nodes := s.routingTable4.closest target s.conf.k }
  else
    let r := if n4 then { r with nodes := s.routingTable4.closest target s.conf.k } else r
    if n6 then { r with nodes6 := s.routingTable6.closest target s.conf.k } else r

/-- The peers of the families a querier asks for, or else of its own family. -/
def valuesFor (env : Env) (s : Server) (raddr : Addr) (a : QueryArg) : List GoString :=
  let n4 := a.containsWant wantNodes
  let n6 := a.containsWant wantNodes6
  if !n4 && !n6 then storedPeers env s a.infoHash (isIPv6 raddr.ip)
  else
    let values := if n4 then storedPeers env s a.infoHash false else []
    if n6 then
      if values.length = 0 then storedPeers env s a.infoHash true
      else values ++ storedPeers env s a.infoHash true
    else values

def handleQuery (env : Env) (raddr : Addr) (m : Message) : ServerM Unit := do
  let s ← Act.get
  if m.q = queryMethodPing then reply env raddr m.t {}
  else if m.q = queryMethodFindNode then
    reply env raddr m.t (closestNodes s raddr m.a m.a.infoHash {})
  else if m.q = queryMethodGetPeers then
    let values := valuesFor env s raddr m.a
    let r : ResponseResult := { values := values }
    let r := if values.length = 0 then closestNodes s raddr m.a m.a.infoHash r else r
    let issued := s.tokenManager.token raddr env.now
    Act.modify fun s => { s with tokenManager := issued.2 }
    reply env raddr m.t { r with token := issued.1 }
    Act.emit (.onSearch (Hex.encode m.a.infoHash.bytes) raddr)
  else if m.q = queryMethodAnnouncePeer then
    if s.tokenManager.check raddr m.a.token then pure ()
    else
      reply env raddr m.t {}
      Act.emit (.onTorrent (Hex.encode m.a.infoHash.bytes) raddr.string)
  else sendError env raddr m.t (str "unknown query method") errorCodeMethodUnknown

/-! ### Searches -/

/-- The transaction of `s.Ping(addr, cb)`. -/
def pingTransaction (addr : Addr) (callback : Option Nat) (now : Time) : Transaction :=
  { newTransaction addr queryMethodPing {} callback now with onResponse := .onPingResp }

def ping (env : Env) (addr : Addr) (callback : Option Nat) : ServerM (Option GoError) :=
  request env (pingTransaction addr callback env.now)

/-- The transaction of `s.getPeers(info, addr, depth, ids, cb)`. -/
def getPeersTransaction (wants : List Want) (info : Hash) (addr : Addr) (depth : Int)
    (ids : SliceRef) (callback : Option Nat) (now : Time) : Transaction :=
  { newTransaction addr queryMethodGetPeers { infoHash := info, wants := wants } callback now with
    onResponse := .onGetPeersResp
    depth := depth
    visited := ids }

/-- `s.getPeers(info, addr, depth, ids, cb)`. -/
def getPeersFrom (env : Env) (info : Hash) (addr : Addr) (depth : Int) (ids : SliceRef)
    (callback : Option Nat) : ServerM Unit := do
  let s ← Act.get
  let _ ← request env (getPeersTransaction s.want info addr depth ids callback env.now)

/-- The transaction of `s.findNode(target, addr, depth, ids)`. The depth is not used. -/
def findNodeTransaction (wants : List Want) (target : Hash) (addr : Addr) (ids : SliceRef)
    (now : Time) : Transaction :=
  { newTransaction addr queryMethodFindNode { target := target, wants := wants } none now with
    onResponse := .onFindNodeResp
    visited := ids }

/-- `s.findNode(target, addr, depth, ids)`. -/
def findNodeFrom (env : Env) (target : Hash) (addr : Addr) (_depth : Int) (ids : SliceRef) :
    ServerM (Option GoError) := do
  let s ← Act.get
  request env (findNodeTransaction s.want target addr ids env.now)

/-- What the loops over the nodes of a response collect. -/
structure Collected where
  found : Bool
  nodes : List Node
  ids : SliceRef

/-- The loop over the nodes of a response to a search for `wanted`. -/
def collectNodes (env : Env) (wanted : Hash) (ro : Bool) : List Node → Collected → ServerM Collected
  | [], acc => pure acc
  | node :: rest, acc => do
      let acc := { acc with found := acc.found || node.id == wanted }
      let s ← Act.get
      if hashesContain (s.slices.read acc.ids) node.id then collectNodes env wanted ro rest acc
      else
        let r ← addNode2 env node ro
        if r = .nodeAdded then
          let grown := s.slices.append env.grow acc.ids node.id
          Act.modify fun s => { s with slices := grown.2 }
          collectNodes env wanted ro rest { acc with nodes := acc.nodes ++ [node], ids := grown.1 }
        else collectNodes env wanted ro rest acc

/-- The part of a response handler that goes one level deeper: `next` queries a node that the
response brought. -/
def searchOn (env : Env) (wanted : Hash) (t : Transaction) (m : Message)
    (next : Addr → Int → SliceRef → ServerM Unit) : ServerM Unit := do
  let depth := t.depth - 1
  if depth < 1 then pure ()
  else
    let four ← collectNodes env wanted m.ro m.r.nodes ⟨false, [], t.visited⟩
    let six ← collectNodes env wanted m.ro m.r.nodes6 four
    if six.found = true ∨ six.nodes.length = 0 then pure ()
    else Act.forEach (fun node : Node => next node.addr depth six.ids) six.nodes

def onPingResp (t : Transaction) : ServerM Unit := done t {}

/-- The first lines of `onGetPeersResp`: store the responding node with the token. -/
def storeToken (env : Env) (a : Addr) (m : Message) : ServerM Unit :=
  if m.r.token ≠ [] then
    Act.modify fun s =>
      { s with tokenPeerManager := s.tokenPeerManager.set m.r.id a m.r.token env.now }
  else pure ()

/-- The rest of `onGetPeersResp`: report the peers, or search on. -/
def searchPeers (env : Env) (t : Transaction) (m : Message) : ServerM Unit :=
  if 0 < m.r.values.length then do
    done t { peers := m.r.values }
    Act.forEach (fun addr => Act.emit (.onTorrent (Hex.encode t.arg.infoHash.bytes) addr)) m.r.values
  else do
    done t {}
    searchOn env t.arg.infoHash t m fun addr depth ids =>
      getPeersFrom env t.arg.infoHash addr depth ids t.callback

def onGetPeersResp (env : Env) (t : Transaction) (a : Addr) (m : Message) : ServerM Unit := do
  storeToken env a m
  searchPeers env t m

def onFindNodeResp (env : Env) (t : Transaction) (m : Message) : ServerM Unit := do
  done t {}
  searchOn env t.arg.target t m fun addr depth ids => do
    let _ ← findNodeFrom env t.arg.target addr depth ids

def onResponse (env : Env) (t : Transaction) (a : Addr) (m : Message) : ServerM Unit :=
  match t.onResponse with
  | .noopResponse => pure ()
  | .onPingResp => onPingResp t
  | .onGetPeersResp => onGetPeersResp env t a m
  | .onFindNodeResp => onFindNodeResp env t m

def onError (t : Transaction) (code : Int) (reason : GoString) : ServerM Unit :=
  done t { code := code, reason := reason }

def onTimeout (t : Transaction) : ServerM Unit := done t { timeout := true }

/-- The nodes closest to an infohash in the tables of the families the server speaks. -/
def nearNodes (s : Server) (infohash : Hash) : List Node :=
  (if s.ipv4 then s.routingTable4.closest infohash s.conf.k else []) ++
    (if s.ipv6 then s.routingTable6.closest infohash s.conf.k else [])

def getPeers (env : Env) (infohash : Hash) (callback : Option Nat) : ServerM (Option Unit) := do
  if infohash.isZero then pure none
  else
    let s ← Act.get
    let nodes := s.nearNodes infohash
    if nodes.length = 0 then
      match callback with
      | some name => Act.emit (.callback name {})
      | none => pure ()
      pure (some ())
    else
      let ids := s.slices.alloc (nodes.map Node.id) nodes.length
      Act.modify fun s => { s with slices := ids.2 }
      Act.forEach (fun node : Node =>
        getPeersFrom env infohash node.addr s.conf.searchDepth ids.1 callback) nodes
      pure (some ())

/-- The loop of `AnnouncePeer`: the nodes to which the query was sent. -/
def announceTo (env : Env) (infohash : Hash) (port : UInt16) (impliedPort : Bool) :
    List Node → ServerM (List Node)
  | [] => pure []
  | node :: rest => do
      let s ← Act.get
      let token := s.tokenPeerManager.get infohash node.addr
      if token = [] then announceTo env infohash port impliedPort rest
      else
        let arg : QueryArg :=
          { impliedPort := impliedPort, infoHash := infohash, port := port, token := token }
        let err ← request env (newTransaction node.addr queryMethodAnnouncePeer arg none env.now)
        let sent ← announceTo env infohash port impliedPort rest
        pure (if err = none then node :: sent else sent)

def announcePeer (env : Env) (infohash : Hash) (port : UInt16) (impliedPort : Bool) :
    ServerM (Option (List Node)) := do
  if infohash.isZero then pure none
  else
    let s ← Act.get
    let sent ← announceTo env infohash port impliedPort (s.nearNodes infohash)
    pure (some sent)

def findNode (env : Env) (addr : Addr) (target : Hash) : ServerM (Option (Option GoError)) := do
  if target.isZero then pure none
  else
    let s ← Act.get
    let err ← findNodeFrom env target addr s.conf.searchDepth SliceRef.nil
    pure (some err)

/-- `s.Bootstrap(addrs)`, with the addresses as they resolve. -/
def bootstrap (env : Env) (addrs : List Addr) : ServerM Unit := do
  let s ← Act.get
  if (s.ipv4 && s.routingTable4.len == 0) || (s.ipv6 && s.routingTable6.len == 0) then
    Act.forEach (fun ipport : Addr =>
      if (if isIPv6 ipport.ip then !s.ipv6 else !s.ipv4) then pure ()
      else do
        let _ ← findNode env ipport s.conf.id) addrs
  else pure ()

/-! ### Messages -/

def popTransaction (tid : GoString) (addr : Addr) : ServerM (Option Transaction) := do
  let s ← Act.get
  let popped := s.transactionManager.popTransaction tid addr
  Act.modify fun s => { s with transactionManager := popped.2 }
  pure popped.1

/-- The switch of `handleMessage` over the type of the message. -/
def dispatch (env : Env) (kaddr : Addr) (m : Message) : ServerM Unit :=
  if m.y = str "q" then
    if m.a.id.isZero then pure ()
    else do
      let r ← addNodeOf env kaddr m.a.id m.ro
      let s ← Act.get
      if r ≠ .nodeExistAndChanged ∧ s.conf.readOnly = false then handleQuery env kaddr m
      else pure ()
  else if m.y = str "r" then
    if m.r.id.isZero then pure ()
    else do
      let r ← addNodeOf env kaddr m.r.id m.ro
      if r = .nodeExistAndChanged then pure ()
      else
        match ← popTransaction m.t kaddr with
        | some t => onResponse env t kaddr m
        | none => pure ()
  else if m.y = str "e" then do
    match ← popTransaction m.t kaddr with
    | some t => onError t m.e.code m.e.reason
    | none => pure ()
  else pure ()

def handleMessage (env : Env) (kaddr : Addr) (m : Message) : ServerM Unit :=
  if env.handleIn kaddr m then pure () else dispatch env kaddr m

/-- `s.handlePacket(raddr, data)`; `decoded` is the message in the data, `none` if there is none. -/
def handlePacket (env : Env) (kaddr : Addr) (decoded : Option Message) : ServerM Unit := do
  let s ← Act.get
  if s.isDisabled kaddr then pure ()
  else if env.blacklisted kaddr then pure ()
  else
    match decoded with
    | some m => if m.t = [] then pure () else handleMessage env kaddr m
    | none => pure ()

end Server

end GoBt.Dht
