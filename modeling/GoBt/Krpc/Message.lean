/-
**KRPC nodes and messages.**

The data of `krpc/node.go` and `krpc/message.go` as the DHT server reads and builds it: the query
arguments, the response results, the errors and the message around them.
-/

import GoBt.Krpc.Addr
import GoBt.Metainfo.Hash

namespace GoBt.Krpc

open GoBt.Metainfo

structure Node where
  id : Hash
  addr : Addr
  deriving DecidableEq

structure Error where
  code : Int := 0
  reason : GoString := []
  deriving DecidableEq

def errorCodeMethodUnknown : Int := 204

/-- `krpc.Want`: the families a querier asks nodes of. -/
abbrev Want := GoString

def wantNodes : Want := str "n4"

def wantNodes6 : Want := str "n6"

structure QueryArg where
  id : Hash := zeroHash
  target : Hash := zeroHash
  infoHash : Hash := zeroHash
  port : UInt16 := 0
  token : GoString := []
  impliedPort : Bool := false
  wants : List Want := []
  deriving DecidableEq

def QueryArg.containsWant (a : QueryArg) (w : Want) : Bool := a.wants.any fun want => want == w

structure ResponseResult where
  id : Hash := zeroHash
  nodes : List Node := []
  nodes6 : List Node := []
  token : GoString := []
  values : List GoString := []
  deriving DecidableEq

structure Message where
  t : GoString
  y : GoString
  q : GoString := []
  a : QueryArg := {}
  r : ResponseResult := {}
  e : Error := {}
  ro : Bool := false
  deriving DecidableEq

def newQueryMsg (tid method : GoString) (arg : QueryArg) : Message :=
  { t := tid, y := str "q", q := method, a := arg }

def newResponseMsg (tid : GoString) (data : ResponseResult) : Message :=
  { t := tid, y := str "r", r := data }

def newErrorMsg (tid : GoString) (code : Int) (reason : GoString) : Message :=
  { t := tid, y := str "e", e := { code := code, reason := reason } }

end GoBt.Krpc
