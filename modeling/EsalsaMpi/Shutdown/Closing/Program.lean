import EsalsaMpi.Library.Queues
import EsalsaMpi.Server.Jobs
import EsalsaMpi.Server.World

/-!
# How a run is closed

The application processes, the gateways of all clusters and the threads of the server, from the
calls of the application to the closing of the sockets.  `messaging_finalize` sends a `FINALIZE`
request through the master gateway, and its replies also end the main loops of the gateways.  The
processes of a cluster then meet in a barrier, the master gateway asks the server with
`CLOSE_LINK`, the server counts the clusters that have asked and answers when its queue for the
cluster is empty, and behind a second barrier the gateways of the cluster close their sockets.

Every event is what one process or thread does next; one that has to wait does nothing.  A request
of the application may be on any communicator and for any rank.
-/

namespace EsalsaMpi

namespace Closing

open Server (CommunicatorRequest Reply Job)

/-- What a master gateway writes on its link to the server. -/
inductive ToServer where
  | request (req : CommunicatorRequest)
  | closeLink

/-- What the server writes on its link to a master gateway. -/
inductive ToMaster where
  | reply (m : Reply)
  | closeLink
deriving DecidableEq

/-- Where an application process is. -/
inductive Phase where
  | running
  /-- in a call, waiting for the reply of the server -/
  | waiting
  /-- in `messaging_finalize`, waiting for the reply of the server -/
  | finalizing
  /-- in `PMPI_Barrier(MPI_COMM_WORLD)` -/
  | barrier
  | finished
deriving DecidableEq

/-- Where a gateway is. -/
inductive Place where
  /-- in the main loop, with the flag `done` -/
  | loop (done : Bool)
  /-- in `PMPI_Barrier(MPI_COMM_WORLD)` -/
  | worldBarrier
  /-- at the start of `cleanup` -/
  | cleanup
  /-- the master gateway, waiting for the answer to `CLOSE_LINK` -/
  | asked
  /-- in `PMPI_Barrier(mpi_comm_gateways_only)` -/
  | gatewayBarrier
  /-- in `disconnect_gateways`, in front of `disconnect_gateway(index)` -/
  | disconnecting (index : Nat)
  /-- ended by an error in the main loop -/
  | failed
deriving DecidableEq

/-- A `ReceiverThread` of the server. -/
inductive Receiver where
  | reading
  /-- in `deliverRequest`, with jobs to do and replies to enqueue -/
  | working (req : CommunicatorRequest) (jobs : List Job) (replies : List Reply)
  /-- in `Cluster.done`, in front of `clusterDone` -/
  | finishing
  | stopped

/-- A `SenderThread` of the server. -/
inductive Sender where
  | sending
  | writing (m : Reply)
  /-- in `closeSocket` -/
  | closing
  | closed

/-- A state of a run: at the server, on the links, in the clusters, and a record of the replies
enqueued for each cluster and of what has been written on its link. -/
structure State where
  communicators : Server.State
  receiver : Nat → Receiver
  incoming : Nat → List Reply
  done : Nat → Bool
  sender : Nat → Sender
  clustersDone : Nat
  toServer : Nat → List ToServer
  toMaster : Nat → List ToMaster
  application : Pid → Phase
  gateway : Pid → Place
  requests : Pid → List CommunicatorRequest
  replies : Pid → List Reply
  serverQueueOut : Nat → List CommunicatorRequest
  serverQueueIn : Nat → List Reply
  enqueued : Nat → List Reply
  written : Nat → List ToMaster

/-- In a barrier for the processes of a cluster, or behind it. -/
def Phase.atBarrier : Phase → Bool
  | .barrier | .finished => true
  | _ => false

def Place.inLoop : Place → Bool
  | .loop _ => true
  | _ => false

/-- How far a gateway is behind its main loop. -/
def Place.stage : Place → Nat
  | .loop _ => 0
  | .worldBarrier => 1
  | .cleanup => 2
  | .asked => 3
  | .gatewayBarrier => 4
  | .disconnecting _ => 5
  | .failed => 0

variable (cfg : Server.Config) (order : Server.HashOrder)

/-- The number of application processes of a cluster. -/
def applicationSize (k : Nat) : Nat := cfg.applicationSizes.getD k 0

/-- The application processes of a cluster. -/
def applications (k : Nat) : List Pid := (List.range (applicationSize cfg k)).map (setPid k)

/-- The gateways of a cluster. -/
def gateways (k : Nat) : List Pid := Server.gatewayPids cfg k (applicationSize cfg k)

/-- The gateway of a cluster that has the `gateway_rank` 0. -/
def master (k : Nat) : Pid :=
  setPid k (applicationSize cfg k + cfg.numberOfGatewaysPerCluster - 1)

/-- The request of `messaging_finalize`. -/
def finalizeRequest (pid : Pid) : CommunicatorRequest :=
  ⟨pid, 0, (Server.worldMembers cfg).idxOf pid, .finalize⟩

/-- What a call of the application asks for.  Groups have application processes only, and
`EMPI_Comm_free` sends nothing. -/
def isCall : Server.Operation → Bool
  | .split _ _ => true
  | .group pids => pids.all fun pid => pid ∈ Server.worldMembers cfg
  | .dup => true
  | .free => false
  | .finalize => false

namespace State

variable (s : State)

section Application

/-- A process sends a request and waits for the reply. -/
def call (req : CommunicatorRequest) : State :=
  if s.application req.source = .running ∧ isCall cfg req.operation then
    { s with
      application := Function.update s.application req.source .waiting
      requests := Queues.push s.requests req.source [req] }
  else s

/-- `messaging_finalize` up to its reply. -/
def messagingFinalize (pid : Pid) : State :=
  if s.application pid = .running then
    { s with
      application := Function.update s.application pid .finalizing
      requests := Queues.push s.requests pid [finalizeRequest cfg pid] }
  else s

/-- `receive_server_message`.  In `messaging_finalize` the process is in the barrier then. -/
def receiveServerMessage (pid : Pid) : State :=
  match s.replies pid, s.application pid with
  | _ :: rest, .waiting =>
    { s with
      application := Function.update s.application pid .running
      replies := Function.update s.replies pid rest }
  | _ :: rest, .finalizing =>
    { s with
      application := Function.update s.application pid .barrier
      replies := Function.update s.replies pid rest }
  | _, _ => s

/-- All processes of a cluster have come to `PMPI_Barrier(MPI_COMM_WORLD)`. -/
def worldBarrierComplete (k : Nat) : Bool :=
  ((applications cfg k).all fun pid => (s.application pid).atBarrier) &&
    (gateways cfg k).all fun g => 1 ≤ (s.gateway g).stage

/-- An application process leaves the barrier. -/
def finish (k : Nat) (pid : Pid) : State :=
  if s.application pid = .barrier ∧ s.worldBarrierComplete cfg k then
    { s with application := Function.update s.application pid .finished }
  else s

end Application

section Gateway

/-- A gateway goes to another place. -/
def goTo (g : Pid) (place : Place) : State :=
  { s with gateway := Function.update s.gateway g place }

/-- `receive_mpi_server_request`, for a request of `pid`. -/
def receiveMpiServerRequest (k : Nat) (pid : Pid) : State :=
  if (s.gateway (master cfg k)).inLoop ∧ getClusterRank pid = k then
    match s.requests pid with
    | [] => s
    | req :: rest =>
      { s with
        requests := Function.update s.requests pid rest
        serverQueueOut := Queues.push s.serverQueueOut k [req] }
  else s

/-- The master gateway writes a message to the server. -/
def writeServerMessage (k : Nat) : State :=
  if (s.gateway (master cfg k)).inLoop then
    match s.serverQueueOut k with
    | [] => s
    | req :: rest =>
      { s with
        serverQueueOut := Function.update s.serverQueueOut k rest
        toServer := Queues.push s.toServer k [.request req] }
  else s

/-- The master gateway reads a message of the server. -/
def readServerMessage (k : Nat) : State :=
  if (s.gateway (master cfg k)).inLoop then
    match s.toMaster k with
    | .reply m :: rest =>
      { s with
        toMaster := Function.update s.toMaster k rest
        serverQueueIn := Queues.push s.serverQueueIn k [m] }
    | _ => s
  else s

/-- A round of `forward_server_messages_to_mpi`. -/
def forwardServerMessage (k : Nat) : State :=
  if (s.gateway (master cfg k)).inLoop then
    match s.serverQueueIn k with
    | [] => s
    | m :: rest =>
      if m.destination = master cfg k then
        if m.body = .finalize then
          { s with
            serverQueueIn := Function.update s.serverQueueIn k rest
            gateway := Function.update s.gateway (master cfg k) (.loop true) }
        else s.goTo (master cfg k) .failed
      else if getClusterRank m.destination = k then
        { s with
          serverQueueIn := Function.update s.serverQueueIn k rest
          replies := Queues.push s.replies m.destination [m] }
      else s.goTo (master cfg k) .failed
  else s

/-- `receive_mpi_server_reply`. -/
def receiveMpiServerReply (g : Pid) : State :=
  if (s.gateway g).inLoop then
    match s.replies g with
    | [] => s
    | m :: rest =>
      if m.body = .finalize then
        { s with
          replies := Function.update s.replies g rest
          gateway := Function.update s.gateway g (.loop true) }
      else s.goTo g .failed
  else s

/-- A gateway leaves its main loop for the barrier. -/
def exitLoop (g : Pid) : State :=
  if s.gateway g = .loop true then s.goTo g .worldBarrier else s

/-- A gateway leaves the barrier for `cleanup`. -/
def startCleanup (k : Nat) (g : Pid) : State :=
  if s.gateway g = .worldBarrier ∧ s.worldBarrierComplete cfg k then s.goTo g .cleanup else s

/-- The master gateway sends `CLOSE_LINK`. -/
def sendCloseLink (k : Nat) : State :=
  if s.gateway (master cfg k) = .cleanup then
    { s with
      gateway := Function.update s.gateway (master cfg k) .asked
      toServer := Queues.push s.toServer k [.closeLink] }
  else s

/-- The master gateway receives its answer, whatever it is. -/
def receiveCloseLink (k : Nat) : State :=
  if s.gateway (master cfg k) = .asked then
    match s.toMaster k with
    | [] => s
    | _ :: rest =>
      { s with
        gateway := Function.update s.gateway (master cfg k) .gatewayBarrier
        toMaster := Function.update s.toMaster k rest }
  else s

/-- The other gateways go on to the barrier. -/
def skipCloseLink (k : Nat) (g : Pid) : State :=
  if g ≠ master cfg k ∧ s.gateway g = .cleanup then s.goTo g .gatewayBarrier else s

/-- A gateway leaves `PMPI_Barrier(mpi_comm_gateways_only)`. -/
def startDisconnecting (k : Nat) (g : Pid) : State :=
  if s.gateway g = .gatewayBarrier ∧
      (gateways cfg k).all fun g' => 4 ≤ (s.gateway g').stage then
    s.goTo g (.disconnecting 0)
  else s

/-- `disconnect_gateway`. -/
def disconnectGateway (g : Pid) : State :=
  match s.gateway g with
  | .disconnecting index =>
    if index < cfg.numberOfClusters then s.goTo g (.disconnecting (index + 1)) else s
  | _ => s

/-- A gateway has closed its sockets to the gateway of another cluster, in
`disconnect_gateways` or by its end. -/
def HasClosed (g : Pid) (index : Nat) : Prop :=
  (∃ next, s.gateway g = .disconnecting next ∧ index < next ∧ index ≠ getClusterRank g) ∨
    s.gateway g = .failed

end Gateway

section Server

/-- A thread is in the monitor of communicator `n`. -/
def locked (n : Nat) : Bool :=
  (List.range cfg.numberOfClusters).any fun k =>
    match s.receiver k with
    | .working req _ _ => req.communicator = n
    | _ => false

/-- `Cluster.receiveMessage` up to the operation, and `Cluster.done` up to `clusterDone`. -/
def receiveMessage (k : Nat) : State :=
  match s.receiver k, s.toServer k with
  | .reading, .request req :: rest =>
    if s.locked cfg req.communicator then s
    else
      { s with
        communicators := (Server.admitRequest cfg order s.communicators req).1
        receiver := Function.update s.receiver k
          (.working req (Server.admitRequest cfg order s.communicators req).2 [])
        toServer := Function.update s.toServer k rest }
  | .reading, .closeLink :: rest =>
    { s with
      receiver := Function.update s.receiver k .finishing
      done := Function.update s.done k true
      toServer := Function.update s.toServer k rest }
  | _, _ => s

/-- The thread does its next job.  An exception ends the operation. -/
def runJob (k : Nat) : State :=
  match s.receiver k with
  | .working req (job :: jobs) [] =>
    match job.run cfg s.communicators with
    | none => { s with receiver := Function.update s.receiver k (.working req [] []) }
    | some (communicators, replies) =>
      { s with
        communicators := communicators
        receiver := Function.update s.receiver k (.working req jobs replies) }
  | _ => s

/-- `Server.enqueueReply` and `Cluster.enqueue`. -/
def enqueueReply (k : Nat) : State :=
  match s.receiver k with
  | .working req jobs (m :: replies) =>
    { s with
      receiver := Function.update s.receiver k (.working req jobs replies)
      incoming := Queues.push s.incoming (getClusterRank m.destination) [m]
      enqueued := Queues.push s.enqueued (getClusterRank m.destination) [m] }
  | _ => s

/-- The end of `deliverRequest`. -/
def returnFromDelivery (k : Nat) : State :=
  match s.receiver k with
  | .working _ [] [] => { s with receiver := Function.update s.receiver k .reading }
  | _ => s

/-- `Server.clusterDone`. -/
def clusterDone (k : Nat) : State :=
  match s.receiver k with
  | .finishing =>
    { s with
      receiver := Function.update s.receiver k .stopped
      clustersDone := s.clustersDone + 1 }
  | _ => s

/-- `Cluster.dequeue`. -/
def dequeue (k : Nat) : State :=
  match s.sender k, s.incoming k with
  | .sending, m :: rest =>
    { s with
      sender := Function.update s.sender k (.writing m)
      incoming := Function.update s.incoming k rest }
  | .sending, [] =>
    if s.done k then { s with sender := Function.update s.sender k .closing } else s
  | _, _ => s

/-- `Cluster.sendMessage` behind `dequeue`. -/
def sendMessage (k : Nat) : State :=
  match s.sender k with
  | .writing m =>
    { s with
      sender := Function.update s.sender k .sending
      toMaster := Queues.push s.toMaster k [.reply m]
      written := Queues.push s.written k [.reply m] }
  | _ => s

/-- `Cluster.closeSocket`, which waits in `allClustersDone`. -/
def closeSocket (k : Nat) : State :=
  match s.sender k with
  | .closing =>
    if s.clustersDone < cfg.numberOfClusters then s
    else
      { s with
        sender := Function.update s.sender k .closed
        toMaster := Queues.push s.toMaster k [.closeLink]
        written := Queues.push s.written k [.closeLink] }
  | _ => s

end Server

end State

/-- What a process or a thread does next. -/
inductive Event where
  | call (req : CommunicatorRequest)
  | messagingFinalize (pid : Pid)
  | receiveServerMessage (pid : Pid)
  | finish (k : Nat) (pid : Pid)
  | receiveMpiServerRequest (k : Nat) (pid : Pid)
  | writeServerMessage (k : Nat)
  | readServerMessage (k : Nat)
  | forwardServerMessage (k : Nat)
  | receiveMpiServerReply (k : Nat) (g : Pid)
  | exitLoop (k : Nat) (g : Pid)
  | startCleanup (k : Nat) (g : Pid)
  | sendCloseLink (k : Nat)
  | receiveCloseLink (k : Nat)
  | skipCloseLink (k : Nat) (g : Pid)
  | startDisconnecting (k : Nat) (g : Pid)
  | disconnectGateway (k : Nat) (g : Pid)
  | receiveMessage (k : Nat)
  | runJob (k : Nat)
  | enqueueReply (k : Nat)
  | returnFromDelivery (k : Nat)
  | clusterDone (k : Nat)
  | dequeue (k : Nat)
  | sendMessage (k : Nat)
  | closeSocket (k : Nat)

/-- There is a process or a thread for an event. -/
def Event.Possible : Event → Prop
  | .call _ | .messagingFinalize _ | .receiveServerMessage _ => True
  | .finish k pid => k < cfg.numberOfClusters ∧ pid ∈ applications cfg k
  | .receiveMpiServerReply k g | .exitLoop k g | .startCleanup k g | .skipCloseLink k g
  | .startDisconnecting k g | .disconnectGateway k g =>
    k < cfg.numberOfClusters ∧ g ∈ gateways cfg k
  | .receiveMpiServerRequest k _ | .writeServerMessage k | .readServerMessage k
  | .forwardServerMessage k | .sendCloseLink k | .receiveCloseLink k | .receiveMessage k
  | .runJob k | .enqueueReply k | .returnFromDelivery k | .clusterDone k | .dequeue k
  | .sendMessage k | .closeSocket k => k < cfg.numberOfClusters

instance (e : Event) : Decidable (e.Possible cfg) := by
  cases e <;> unfold Event.Possible <;> infer_instance

/-- What the event changes. -/
def State.change (s : State) : Event → State
  | .call req => s.call cfg req
  | .messagingFinalize pid => s.messagingFinalize cfg pid
  | .receiveServerMessage pid => s.receiveServerMessage pid
  | .finish k pid => s.finish cfg k pid
  | .receiveMpiServerRequest k pid => s.receiveMpiServerRequest cfg k pid
  | .writeServerMessage k => s.writeServerMessage cfg k
  | .readServerMessage k => s.readServerMessage cfg k
  | .forwardServerMessage k => s.forwardServerMessage cfg k
  | .receiveMpiServerReply _ g => s.receiveMpiServerReply g
  | .exitLoop _ g => s.exitLoop g
  | .startCleanup k g => s.startCleanup cfg k g
  | .sendCloseLink k => s.sendCloseLink cfg k
  | .receiveCloseLink k => s.receiveCloseLink cfg k
  | .skipCloseLink k g => s.skipCloseLink cfg k g
  | .startDisconnecting k g => s.startDisconnecting cfg k g
  | .disconnectGateway _ g => s.disconnectGateway cfg g
  | .receiveMessage k => s.receiveMessage cfg order k
  | .runJob k => s.runJob cfg k
  | .enqueueReply k => s.enqueueReply k
  | .returnFromDelivery k => s.returnFromDelivery k
  | .clusterDone k => s.clusterDone k
  | .dequeue k => s.dequeue k
  | .sendMessage k => s.sendMessage k
  | .closeSocket k => s.closeSocket cfg k

/-- A step of a run. -/
def State.step (s : State) (e : Event) : State :=
  if e.Possible cfg then s.change cfg order e else s

/-- The start: all main loops run, and so do the application and the threads of the server. -/
def start : State where
  communicators := (Server.initCommWorld cfg).getD []
  receiver := fun _ => .reading
  incoming := fun _ => []
  done := fun _ => false
  sender := fun _ => .sending
  clustersDone := 0
  toServer := fun _ => []
  toMaster := fun _ => []
  application := fun pid => if pid ∈ Server.worldMembers cfg then .running else .finished
  gateway := fun _ => .loop false
  requests := fun _ => []
  replies := fun _ => []
  serverQueueOut := fun _ => []
  serverQueueIn := fun _ => []
  enqueued := fun _ => []
  written := fun _ => []

/-- The state after the events of a run, in whatever order they come. -/
def run (events : List Event) : State := events.foldl (State.step cfg order) (start cfg)

/-- **The run is closed in order.** -/
structure InOrder (s : State) : Prop where
  /-- No gateway has closed sockets before all gateways of all clusters have left their main
  loops. -/
  sockets : ∀ k < cfg.numberOfClusters, ∀ g ∈ gateways cfg k, ∀ index, s.HasClosed g index →
    ∀ k' < cfg.numberOfClusters, ∀ g' ∈ gateways cfg k', 1 ≤ (s.gateway g').stage
  /-- Behind all replies that are ever enqueued for a cluster, the answer is written. -/
  answer : ∀ k < cfg.numberOfClusters, ToMaster.closeLink ∈ s.written k →
    s.written k = (s.enqueued k).map ToMaster.reply ++ [.closeLink]

end Closing

end EsalsaMpi
