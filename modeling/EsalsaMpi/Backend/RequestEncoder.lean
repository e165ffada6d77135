import EsalsaMpi.Backend.Messaging
import EsalsaMpi.Server.RequestMessages

/-!
# The client writes its requests

The senders of `messaging.c` fill a struct field by field with `htonl` and
hand its bytes to the gateway, which passes them on to the server as they are.
The server takes every request from the stream in full and nothing else, so
it meets the next request at its first byte (`requests_in_sync`).
-/

namespace EsalsaMpi

open Wire

/-- What a process sends besides its PID and its rank. -/
inductive RequestBody where
  | split (color key : Int32)
  | group (members : List Pid)
  | dup
  | free
  | finalize
deriving DecidableEq

/-- A request: `my_pid`, `c->handle`, `c->global_rank` and the parameters. -/
structure ServerRequest where
  pid : Pid
  handle : Int32
  globalRank : Int32
  body : RequestBody
deriving DecidableEq

/-- `SPLIT_REQUEST_MSG_SIZE`. -/
def splitRequestMsgSize : Nat := messageHeaderSize + 4 * 4

/-- `GROUP_REQUEST_MSG_SIZE`. -/
def groupRequestMsgSize : Nat := messageHeaderSize + 3 * 4

/-- `DUP_REQUEST_MSG_SIZE`. -/
def dupRequestMsgSize : Nat := messageHeaderSize + 2 * 4

/-- `FREE_REQUEST_MSG_SIZE`. -/
def freeRequestMsgSize : Nat := messageHeaderSize + 2 * 4

/-- `FINALIZE_REQUEST_MSG_SIZE`. -/
def finalizeRequestMsgSize : Nat := messageHeaderSize + 2 * 4

section

variable (o : ByteOrder) (serverPid : Pid)

/-- The fields of a struct, each filled with `htonl`. -/
def fields (values : List UInt32) : List UInt8 := values.flatMap fun v => o.store (o.htonl v)

/-- `send_server_request`: the first `len` bytes of the data. -/
def sendServerRequest (data : List UInt8) (len : Nat) : List UInt8 := data.take len

/-- `messaging_comm_split_send`. -/
def messagingCommSplitSend (r : ServerRequest) (color key : Int32) : List UInt8 :=
  sendServerRequest
    (fields o [51, r.pid, serverPid, UInt32.ofNat splitRequestMsgSize, r.handle.toUInt32,
      r.globalRank.toUInt32, color.toUInt32, key.toUInt32])
    splitRequestMsgSize

/-- `messaging_comm_create_send`.  The size of the message is an `int`: from
`2 ^ 31` bytes on, the allocation fails or does not hold the members. -/
def messagingCommCreateSend (r : ServerRequest) (members : List Pid) : Option (List UInt8) :=
  let msgsize := groupRequestMsgSize + 4 * members.length
  if msgsize < 2 ^ 31 then
    some (sendServerRequest
      (fields o ([53, r.pid, serverPid, UInt32.ofNat msgsize, r.handle.toUInt32,
        r.globalRank.toUInt32, UInt32.ofNat members.length] ++ members))
      msgsize)
  else
    none

/-- `messaging_comm_dup_send`; it sends as many bytes as a free request has. -/
def messagingCommDupSend (r : ServerRequest) : List UInt8 :=
  sendServerRequest
    (fields o [55, r.pid, serverPid, UInt32.ofNat dupRequestMsgSize, r.handle.toUInt32,
      r.globalRank.toUInt32])
    freeRequestMsgSize

/-- `messaging_comm_free_send`. -/
def messagingCommFreeSend (r : ServerRequest) : List UInt8 :=
  sendServerRequest
    (fields o [57, r.pid, serverPid, UInt32.ofNat freeRequestMsgSize, r.handle.toUInt32,
      r.globalRank.toUInt32])
    freeRequestMsgSize

/-- The request of `messaging_finalize`. -/
def messagingFinalizeSend (r : ServerRequest) : List UInt8 :=
  sendServerRequest
    (fields o [58, r.pid, serverPid, UInt32.ofNat finalizeRequestMsgSize, r.handle.toUInt32,
      r.globalRank.toUInt32])
    finalizeRequestMsgSize

/-- The bytes that a process sends for a request. -/
def ServerRequest.send (r : ServerRequest) : Option (List UInt8) :=
  match r.body with
  | .split color key => some (messagingCommSplitSend o serverPid r color key)
  | .group members => messagingCommCreateSend o serverPid r members
  | .dup => some (messagingCommDupSend o serverPid r)
  | .free => some (messagingCommFreeSend o serverPid r)
  | .finalize => some (messagingFinalizeSend o serverPid r)

end

/-- The opcode of a request. -/
def RequestBody.opcode : RequestBody → Int32
  | .split _ _ => 51
  | .group _ => 53
  | .dup => 55
  | .free => 57
  | .finalize => 58

variable {o : ByteOrder} {serverPid : Pid}

/-- The words of a request in front of its parameters. -/
def ServerRequest.head (r : ServerRequest) (serverPid : Pid) (length : Nat) : List Int32 :=
  [r.body.opcode, r.pid.toInt32, serverPid.toInt32, Int32.ofNat length, r.handle, r.globalRank]

/-- The words of the parameters. -/
def RequestBody.words : RequestBody → List Int32
  | .split color key => [color, key]
  | .group members => Int32.ofNat members.length :: members.map UInt32.toInt32
  | _ => []

/-- The parameters of a request as the server reads them. -/
def RequestBody.payload : RequestBody → Server.RequestPayload
  | .split color key => .split color key
  | .group members => .group (Int32.ofNat members.length) (members.map UInt32.toInt32)
  | .dup => .dup
  | .free => .free
  | .finalize => .finalize

end EsalsaMpi
