import EsalsaMpi.Gateway.Network
import EsalsaMpi.Gateway.ReadMessage
import EsalsaMpi.Library.SharedQueue

/-!
# The main loop of a gateway

`messaging_run_gateway` handles the messages from MPI and then the events of its sockets, over
and over, until it is done.  The loop is cut at its calls of MPI, of `epoll_wait`, `read` and
`write`, so that a step is what happens between two of them; which messages have arrived, which
events there are and how many bytes a socket takes is left open.

The sockets of a connection share its queue.  The link to the server is the connection
`Peer.server` here: it has one socket, `server_info`, and the queue `server_queue_out`.
-/

namespace EsalsaMpi

namespace MainLoop

open Wire

/-- `STATE_RO` and `STATE_RW`. -/
inductive SocketState where
  | ro
  | rw
deriving DecidableEq, Repr

/-- What a socket is registered for: `EPOLLIN`, or `EPOLLIN | EPOLLOUT`. -/
inductive EpollEvents where
  | input
  | inputOutput
deriving DecidableEq, Repr

/-- A `socket_info` with its state, and what its socket is registered for. -/
structure Socket where
  info : SocketInfo
  state : SocketState
  events : EpollEvents
deriving DecidableEq

/-- `init_socket_info` and `add_socket_to_epoll`. -/
def Socket.init (type : SocketType) : Socket := ⟨.init type, .ro, .input⟩

/-- The message that is in progress on the socket. -/
def Socket.out (s : Socket) : Option Bytes := s.info.outMessage

/-- `ensure_state_ro`. -/
def ensureStateRo (s : Socket) : Socket :=
  if s.state = .rw then { s with events := .input, state := .ro } else s

/-- `ensure_state_rw`. -/
def ensureStateRw (s : Socket) : Socket :=
  if s.state = .ro then { s with events := .inputOutput, state := .rw } else s

/-- The round of the loop in `prepare_messages` for a socket. -/
def prepareSocket (o : ByteOrder) (s : Socket) (outQueue : List Bytes) : Socket × List Bytes :=
  match s.info.prepareMessage o outQueue with
  | none => (ensureStateRo s, outQueue)
  | some (info, rest) => (ensureStateRw { s with info := info }, rest)

/-- `gateway_connection`. -/
structure GatewayConnection where
  sockets : List Socket
  outQueue : List Bytes

/-- `prepare_messages`. -/
def GatewayConnection.prepareMessages (o : ByteOrder) (c : GatewayConnection) :
    GatewayConnection :=
  let visited := SharedQueue.visit (prepareSocket o) c.sockets c.outQueue
  ⟨visited.1, visited.2⟩

/-- The other end of a connection. -/
inductive Peer where
  | server
  | cluster (k : Nat)
deriving DecidableEq, Repr

/-- What a gateway knows when its main loop starts. -/
structure Process where
  clusterCount : Nat
  clusterRank : Nat
  gatewayRank : Nat
  myPid : Pid
  streams : Nat → Nat
  streams_pos : ∀ k, 0 < streams k
  order : ByteOrder

/-- An event of `epoll_wait`: its socket, and whether it has `EPOLLOUT`, `EPOLLIN`, and
`EPOLLERR` or `EPOLLHUP`. -/
structure SocketEvent where
  peer : Peer
  stream : Nat
  output : Bool
  input : Bool
  error : Bool
deriving DecidableEq, Repr

/-- Where the main loop is. -/
inductive Place where
  /-- in front of `receive_mpi_server_request` -/
  | serverRequest
  /-- in front of `receive_mpi_server_reply` -/
  | serverReply (receivedRequest : Bool)
  /-- in the loop of `forward_server_messages_to_mpi` -/
  | forwardServer (receivedRequest receivedReply : Bool)
  /-- in the loop of `forward_data_messages_to_mpi` -/
  | forwardData
  /-- in front of `poll_mpi_requests` -/
  | pollRequests
  /-- in the loop that receives data messages -/
  | receiveData (count : Nat)
  /-- at the start of `process_socket_messages` -/
  | prepare
  /-- in front of `epoll_wait` -/
  | poll
  /-- in the loop of `poll_socket_event` -/
  | events (rest : List SocketEvent)
  /-- at the start of `nonblock_write_message` -/
  | write (e : SocketEvent) (rest : List SocketEvent)
  /-- in the loop of `nonblock_write_message` -/
  | writing (e : SocketEvent) (rest : List SocketEvent)
  /-- in front of a call of `nonblock_read_message` -/
  | read (e : SocketEvent) (count : Nat) (rest : List SocketEvent)
  /-- behind the main loop -/
  | exited
  /-- behind the main loop, with an error -/
  | failed
deriving DecidableEq, Repr

/-- Where `handle_socket_event` goes on when nothing is left to write. -/
def Place.afterWrite (e : SocketEvent) (rest : List SocketEvent) : Place :=
  if e.input then .read e 0 rest else .events rest

/-- The state of a gateway in its main loop. -/
structure State where
  connections : Peer → GatewayConnection
  serverQueueIn : List Bytes
  incomingQueue : List Bytes
  pendingDataMessages : UInt64
  pendingDataSize : UInt64
  mpiMessages : List Bytes
  done : Bool
  place : Place

/-- The connections when the main loop starts.  That of a gateway to its own cluster has no
sockets, and its queue is what has been in the memory; it is taken to be empty.  Only the master
gateway has one to the server. -/
def Process.connection (g : Process) : Peer → GatewayConnection
  | .server => ⟨if g.gatewayRank = 0 then [.init .server] else [], []⟩
  | .cluster k =>
    ⟨if k < g.clusterCount ∧ k ≠ g.clusterRank then List.replicate (g.streams k) (.init .data)
      else [], []⟩

/-- The start of `messaging_run_gateway`. -/
def State.start (g : Process) : State where
  connections := g.connection
  serverQueueIn := []
  incomingQueue := []
  pendingDataMessages := 0
  pendingDataSize := 0
  mpiMessages := []
  done := false
  place := .serverRequest

/-- `MAX_PENDING_DATA_MSG`. -/
def maxPendingDataMsg : UInt64 := 128

/-- `MAX_PENDING_DATA_SIZE`. -/
def maxPendingDataSize : UInt64 := 1024 * 1024 * 1024

/-- `MAX_MPI_RECEIVE_SEQUENCE`. -/
def maxMpiReceiveSequence : Nat := 16

/-- `MAX_SOCKETS_READ_SEQUENCE`. -/
def maxSocketsReadSequence : Nat := 2

/-- `MAX_EVENTS`. -/
def maxEvents : Nat := 32

/-- A field of the header of a message from the server. -/
def networkField (o : ByteOrder) (m : Bytes) (offset : Nat) : UInt32 :=
  ((o.load m offset).map o.ntohl).getD 0

/-- `ntohl(header.opcode)`. -/
def opcode (o : ByteOrder) (m : Bytes) : UInt32 := networkField o m 0

/-- `ntohl(header.dst_pid)`. -/
def destination (o : ByteOrder) (m : Bytes) : Pid := networkField o m 8

/-- `OPCODE_FINALIZE_REPLY`. -/
def opcodeFinalizeReply : UInt32 := 59

/-- `process_gateway_message`: the value of `*done` then; `none` is an error. -/
def processGatewayMessage (o : ByteOrder) (m : Bytes) : Option Bool :=
  if opcode o m ≠ opcodeFinalizeReply then none else some true

/-- `receive_mpi_server_reply`, for the message that has arrived, if there is one: the values of
`*done` and `*received` then; `none` is an error. -/
def receiveMpiServerReply (o : ByteOrder) (done : Bool) : Option Bytes → Option (Bool × Bool)
  | none => some (done, false)
  | some m => (processGatewayMessage o m).map fun done => (done, true)

namespace State

variable (s : State)

/-- A socket of a connection. -/
def socket? (p : Peer) (i : Nat) : Option Socket := (s.connections p).sockets[i]?

/-- The sockets and the queue of a connection change. -/
def setConnection (p : Peer) (c : GatewayConnection) : State :=
  { s with connections := Function.update s.connections p c }

/-- A socket changes. -/
def setSocket (p : Peer) (i : Nat) (sock : Socket) : State :=
  s.setConnection p ⟨(s.connections p).sockets.set i sock, (s.connections p).outQueue⟩

/-- `message_enqueue`, into the queue of a connection. -/
def enqueue (p : Peer) (m : Bytes) : State :=
  s.setConnection p ⟨(s.connections p).sockets, (s.connections p).outQueue ++ [m]⟩

/-- `enqueue_data_message`. -/
def enqueueDataMessage (o : ByteOrder) (m : Bytes) (size : Nat) : State :=
  { s.enqueue (.cluster (getClusterRank (dstPid o m))) m with
    pendingDataMessages := s.pendingDataMessages + 1
    pendingDataSize := s.pendingDataSize + UInt64.ofNat size }

/-- Whether the loop that receives data messages goes on, if it has received one so far in each
round. -/
def ReceivesData (count : Nat) : Prop :=
  s.pendingDataMessages < maxPendingDataMsg ∧ s.pendingDataSize < maxPendingDataSize ∧
    count < maxMpiReceiveSequence

instance (count : Nat) : Decidable (s.ReceivesData count) := inferInstanceAs (Decidable (_ ∧ _ ∧ _))

/-- `message_enqueue`, into the queue for what is read from a connection. -/
def enqueueIn (p : Peer) (m : Option Bytes) : State :=
  match p with
  | .server => { s with serverQueueIn := s.serverQueueIn ++ m.toList }
  | .cluster _ => { s with incomingQueue := s.incomingQueue ++ m.toList }

/-- `nonblock_write_message` after `write` has accepted `tmp` bytes: it calls `write` again, or
the message is finished, and the next one follows. -/
def wrote (e : SocketEvent) (rest : List SocketEvent) (sock : Socket) (tmp : Nat) : State :=
  let count := sock.info.outpos + tmp
  let s' := s.setSocket e.peer e.stream { sock with info := sock.info.afterWrite tmp }
  if count < sock.info.outcount then
    { s' with place := .writing e rest }
  else if sock.info.type = .data then
    { s' with
      pendingDataMessages := s.pendingDataMessages - 1
      pendingDataSize := s.pendingDataSize - UInt64.ofNat count
      place := .write e rest }
  else
    { s' with place := .write e rest }

/-- What `epoll_wait` may return: at most one event of each socket, with `EPOLLOUT` only if the
socket is registered for it. -/
structure Polls (events : List SocketEvent) : Prop where
  length_le : events.length ≤ maxEvents
  nodup : (events.map fun e => (e.peer, e.stream)).Nodup
  registered : ∀ e ∈ events, ∃ sock, s.socket? e.peer e.stream = some sock ∧
    (e.output = true → sock.events = .inputOutput)

end State

/-- What can be seen of a step from outside: a message that is received from a process or from
another gateway by MPI, that is read from a socket, that is processed, or that is forwarded. -/
inductive Action where
  | internal
  | request (m : Bytes)
  | reply (m : Option Bytes)
  | data (m : Bytes)
  | read (p : Peer) (m : Option Bytes)
  | processed (m : Bytes)
  | forwardedReply (m : Bytes)
  | forwardedData (m : Bytes)
deriving DecidableEq

/-- A step of the main loop. -/
inductive Step (g : Process) : State → Action → State → Prop where
  /-- `receive_mpi_server_request`: there is none. -/
  | noRequest {s : State} (hplace : s.place = .serverRequest) :
      Step g s .internal { s with place := .serverReply false }
  /-- `receive_mpi_server_request` and `enqueue_server_request`. -/
  | request {s : State} {m : Bytes} (hplace : s.place = .serverRequest)
      (hmaster : g.gatewayRank = 0) :
      Step g s (.request m) { s.enqueue .server m with place := .serverReply true }
  | requestFailed {s : State} {m : Bytes} (hplace : s.place = .serverRequest)
      (hmaster : g.gatewayRank ≠ 0) :
      Step g s (.request m) { s with place := .failed }
  /-- `receive_mpi_server_reply(&receivedReply, done)`: its parameters are `done` and
  `received`. -/
  | reply {s : State} {receivedRequest receivedReply done : Bool} {m : Option Bytes}
      (hplace : s.place = .serverReply receivedRequest)
      (hreply : receiveMpiServerReply g.order false m = some (receivedReply, done)) :
      Step g s (.reply m)
        { s with done := done, place := .forwardServer receivedRequest receivedReply }
  | replyFailed {s : State} {receivedRequest : Bool} {m : Option Bytes}
      (hplace : s.place = .serverReply receivedRequest)
      (hreply : receiveMpiServerReply g.order false m = none) :
      Step g s (.reply m) { s with done := true, place := .failed }
  /-- `forward_server_messages_to_mpi`: the message is for this gateway. -/
  | processed {s : State} {receivedRequest receivedReply done : Bool} {m : Bytes}
      {rest : List Bytes} (hplace : s.place = .forwardServer receivedRequest receivedReply)
      (hqueue : s.serverQueueIn = m :: rest) (hpid : destination g.order m = g.myPid)
      (hprocess : processGatewayMessage g.order m = some done) :
      Step g s (.processed m) { s with serverQueueIn := rest, done := done }
  | processedFailed {s : State} {receivedRequest receivedReply : Bool} {m : Bytes}
      {rest : List Bytes} (hplace : s.place = .forwardServer receivedRequest receivedReply)
      (hqueue : s.serverQueueIn = m :: rest) (hpid : destination g.order m = g.myPid)
      (hprocess : processGatewayMessage g.order m = none) :
      Step g s .internal { s with serverQueueIn := rest, place := .failed }
  /-- `forward_server_messages_to_mpi`: the message is for another process. -/
  | forwardReply {s : State} {receivedRequest receivedReply : Bool} {m : Bytes}
      {rest : List Bytes} (hplace : s.place = .forwardServer receivedRequest receivedReply)
      (hqueue : s.serverQueueIn = m :: rest) (hpid : destination g.order m ≠ g.myPid)
      (hcluster : getClusterRank (destination g.order m) = g.clusterRank) :
      Step g s (.forwardedReply m)
        { s with serverQueueIn := rest, mpiMessages := m :: s.mpiMessages }
  | forwardReplyFailed {s : State} {receivedRequest receivedReply : Bool} {m : Bytes}
      {rest : List Bytes} (hplace : s.place = .forwardServer receivedRequest receivedReply)
      (hqueue : s.serverQueueIn = m :: rest) (hpid : destination g.order m ≠ g.myPid)
      (hcluster : getClusterRank (destination g.order m) ≠ g.clusterRank) :
      Step g s .internal { s with serverQueueIn := rest, place := .failed }
  /-- The end of the loop in `process_mpi_messages`. -/
  | serverForwarded {s : State} {receivedRequest receivedReply : Bool}
      (hplace : s.place = .forwardServer receivedRequest receivedReply)
      (hqueue : s.serverQueueIn = []) :
      Step g s .internal { s with
        place := if (receivedRequest || receivedReply) && !s.done then .serverRequest
          else .forwardData }
  /-- `forward_data_messages_to_mpi`. -/
  | forwardData {s : State} {m : Bytes} {rest : List Bytes} (hplace : s.place = .forwardData)
      (hqueue : s.incomingQueue = m :: rest)
      (hcluster : getClusterRank (dstPid g.order m) = g.clusterRank) :
      Step g s (.forwardedData m)
        { s with incomingQueue := rest, mpiMessages := m :: s.mpiMessages }
  | forwardDataFailed {s : State} {m : Bytes} {rest : List Bytes}
      (hplace : s.place = .forwardData) (hqueue : s.incomingQueue = m :: rest)
      (hcluster : getClusterRank (dstPid g.order m) ≠ g.clusterRank) :
      Step g s .internal { s with incomingQueue := rest, place := .failed }
  | dataForwarded {s : State} (hplace : s.place = .forwardData) (hqueue : s.incomingQueue = []) :
      Step g s .internal { s with place := .pollRequests }
  /-- `poll_mpi_requests`, which drops the messages that have been sent. -/
  | pollRequests {s : State} {left : List Bytes} (hplace : s.place = .pollRequests)
      (hleft : left.Sublist s.mpiMessages) :
      Step g s .internal { s with
        mpiMessages := left
        place := if s.done then .exited else .receiveData 0 }
  /-- `receive_mpi_data_message` and `enqueue_data_message`, for a message that a process of the
  cluster has sent, to whatever process. -/
  | data {s : State} {count : Nat} {m : DataMessage} (hplace : s.place = .receiveData count)
      (hreceives : s.ReceivesData count) (hm : m.Sendable)
      (hcluster : getClusterRank m.dstPid < g.clusterCount) :
      Step g s (.data (m.bytes g.order))
        { s.enqueueDataMessage g.order (m.bytes g.order) (m.bytes g.order).length with
          place := .receiveData (count + 1) }
  /-- There is no data message, or there are enough of them. -/
  | dataReceived {s : State} {count : Nat} (hplace : s.place = .receiveData count) :
      Step g s .internal { s with place := .prepare }
  /-- `prepare_message` for the server and `prepare_messages` for the other clusters. -/
  | prepare {s : State} (hplace : s.place = .prepare) :
      Step g s .internal { s with
        connections := fun p => (s.connections p).prepareMessages g.order
        place := .poll }
  /-- `epoll_wait`. -/
  | poll {s : State} {events : List SocketEvent} (hplace : s.place = .poll)
      (hevents : s.Polls events) :
      Step g s .internal { s with place := .events events }
  /-- The end of `process_socket_messages`, as `MAX_SOCKETS_RECEIVE_SEQUENCE` is 1. -/
  | handled {s : State} (hplace : s.place = .events []) :
      Step g s .internal { s with place := if s.done then .exited else .serverRequest }
  /-- `handle_socket_event`. -/
  | eventFailed {s : State} {e : SocketEvent} {rest : List SocketEvent}
      (hplace : s.place = .events (e :: rest)) (herror : e.error = true) :
      Step g s .internal { s with place := .failed }
  | event {s : State} {e : SocketEvent} {rest : List SocketEvent}
      (hplace : s.place = .events (e :: rest)) (herror : e.error = false) :
      Step g s .internal { s with
        place := if e.output then .write e rest else .afterWrite e rest }
  /-- `nonblock_write_message`: there is nothing to write. -/
  | nothingToWrite {s : State} {e : SocketEvent} {rest : List SocketEvent} {sock : Socket}
      (hplace : s.place = .write e rest) (hsock : s.socket? e.peer e.stream = some sock)
      (hprepare : sock.info.prepareMessage g.order (s.connections e.peer).outQueue = none) :
      Step g s .internal { s.setSocket e.peer e.stream (ensureStateRo sock) with
        place := .afterWrite e rest }
  | prepareMessage {s : State} {e : SocketEvent} {rest : List SocketEvent} {sock : Socket}
      {info : SocketInfo} {queue : List Bytes} (hplace : s.place = .write e rest)
      (hsock : s.socket? e.peer e.stream = some sock)
      (hprepare : sock.info.prepareMessage g.order (s.connections e.peer).outQueue =
        some (info, queue)) :
      Step g s .internal { s.setConnection e.peer
          ⟨(s.connections e.peer).sockets.set e.stream { sock with info := info }, queue⟩ with
        place := .writing e rest }
  /-- `write` has accepted some bytes. -/
  | wrote {s : State} {e : SocketEvent} {rest : List SocketEvent} {sock : Socket} {tmp : Nat}
      (hplace : s.place = .writing e rest) (hsock : s.socket? e.peer e.stream = some sock)
      (htmp : tmp ≤ sock.info.outcount - sock.info.outpos) :
      Step g s .internal (s.wrote e rest sock tmp)
  | writeBlocked {s : State} {e : SocketEvent} {rest : List SocketEvent}
      (hplace : s.place = .writing e rest) :
      Step g s .internal { s with place := .afterWrite e rest }
  | writeFailed {s : State} {e : SocketEvent} {rest : List SocketEvent}
      (hplace : s.place = .writing e rest) :
      Step g s .internal { s with place := .failed }
  /-- `nonblock_read_message`. -/
  | read {s : State} {e : SocketEvent} {count rounds : Nat} {rest : List SocketEvent}
      {sock : Socket} {heap : Heap} {results : Nat → ReadResult} {more : Bool}
      {info : SocketInfo} {m : Option Bytes} (hplace : s.place = .read e count rest)
      (hsock : s.socket? e.peer e.stream = some sock)
      (hread : nonblockReadMessage heap g.order results sock.info rounds =
        some (.success more info m)) :
      Step g s (.read e.peer m)
        { (s.setSocket e.peer e.stream { sock with info := info }).enqueueIn e.peer m with
          place := if more && count + 1 < maxSocketsReadSequence then .read e (count + 1) rest
            else .events rest }
  | readFailed {s : State} {e : SocketEvent} {count rounds : Nat} {rest : List SocketEvent}
      {sock : Socket} {heap : Heap} {results : Nat → ReadResult}
      (hplace : s.place = .read e count rest) (hsock : s.socket? e.peer e.stream = some sock)
      (hread : nonblockReadMessage heap g.order results sock.info rounds = some .internalError) :
      Step g s .internal { s with place := .failed }

/-- The runs of the main loop, with their actions. -/
inductive Run (g : Process) : List Action → State → Prop where
  | start : Run g [] (.start g)
  | step {trace : List Action} {s s' : State} {a : Action} (h : Run g trace s)
      (hstep : Step g s a s') : Run g (trace ++ [a]) s'

end MainLoop

end EsalsaMpi
