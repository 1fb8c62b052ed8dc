/-
**Extended messages** (`peerprotocol/extension.go`).

The messages that travel in the payload of an extended message.
-/

import GoBt.Krpc.Addr
import GoBt.Lib.GoMap

namespace GoBt.PeerProtocol

open GoBt.Krpc GoBt.Lib

def extendedIDHandshake : UInt8 := 0

def extendedMessageNameMetadata : GoString := str "ut_metadata"

def utMetadataExtendedMsgTypeRequest : UInt8 := 0
def utMetadataExtendedMsgTypeData : UInt8 := 1

/-- The extended handshake message; a slice or a map that is `none` is nil. -/
structure ExtendedHandshakeMsg where
  m : Option (GoMap GoString UInt8) := none
  v : GoString := []
  reqq : UInt64 := 0
  port : UInt16 := 0
  ipv6 : Option Ip := none
  ipv4 : Option Ip := none
  yourIP : Option Ip := none
  metadataSize : UInt64 := 0
  deriving DecidableEq

def ExtendedHandshakeMsg.messageIDs (msg : ExtendedHandshakeMsg) : GoMap GoString UInt8 :=
  msg.m.getD ∅

/-- The "ut_metadata" extended message. -/
structure UtMetadataExtendedMsg where
  msgType : UInt8
  piece : Int
  totalSize : UInt64 := 0
  data : List UInt8 := []
  deriving DecidableEq

end GoBt.PeerProtocol
