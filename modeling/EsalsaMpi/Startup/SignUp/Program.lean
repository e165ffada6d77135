import EsalsaMpi.Library.Queues
import EsalsaMpi.Startup.Exchange.Program
import EsalsaMpi.Startup.World

/-!
# The sign-up

What `Startup.Exchange` lets happen one connection after the other is done by threads that take
turns: the server accepts a connection and starts an `AcceptThread` for it, which looks up the
cluster, connects it, sends the reply, receives the addresses of the gateways one by one, and
sends those of all gateways of all clusters, for each of which it may have to wait.  It accepts
connections until all clusters are ready, and then makes the world communicator and starts the
messaging.  The server ends if the first of these is an exception.

Any number of master gateways may come, with any names, so that two of them may be after the
same cluster.  A message is what the other side reads in one go; its bytes are those of
`Startup.Exchange`.  An exception ends the thread and leaves its connection open.
-/

namespace EsalsaMpi

namespace SignUp

open Networks Startup CommandLine

/-- A master gateway that comes to the server: its `cluster_name`, from the command line, so that
it fits in the message, the number of MPI processes in its cluster, and the addresses that
`get_local_ips` has found on each of the gateways. -/
structure MasterGateway where
  name : List UInt8
  size : Nat
  addresses : Nat → List Ipv4
  name_lt : name.length < maxLengthClusterName
  addresses_pos : ∀ j, 0 < (addresses j).length
  addresses_lt : ∀ j, (addresses j).length < 2 ^ 31

/-- The master gateways that come. -/
structure Arrivals where
  number : Nat
  gateway : Nat → MasterGateway

/-- What a reply to a handshake says: the four numbers and the sizes of the clusters. -/
structure Numbers where
  reply : HandshakeReply
  sizes : List UInt32

/-- The number of gateways of all clusters. -/
def Numbers.total (numbers : Numbers) : Nat :=
  numbers.reply.clusterCount.toNat * numbers.reply.gatewayCount.toNat

/-- What a master gateway sends. -/
inductive ToServer where
  | handshake (name : List UInt8)
  | gatewayInfo (clusterRank rank : UInt32) (addresses : List Ipv4)
  | closed

/-- What the server sends. -/
inductive ToMaster where
  | accepted (numbers : Numbers)
  | rejected
  | gateway (held : HeldInfo)

/-- Where an `AcceptThread` is. -/
inductive Thread where
  /-- there is no connection yet -/
  | idle
  /-- in `connectionHandshake`, in front of the name -/
  | accepted
  /-- in front of `setConnection` -/
  | found (i : Nat)
  /-- in front of `sendHandshakeReply` -/
  | connected (i : Nat)
  /-- in front of `receiveGatewayInfo(index)` -/
  | receiving (i index : Nat)
  /-- in `sendAllGatewayInfo`, in front of this number of all gateways -/
  | sending (i number : Nat)
  | finished (i : Nat)
  | failed

/-- Where a master gateway is. -/
inductive Master where
  | connecting
  /-- in front of `handshake` -/
  | connected
  /-- in `handshake`, waiting for the reply -/
  | waiting
  /-- in front of `send_gateway_info(src)` -/
  | sending (numbers : Numbers) (src : Nat)
  /-- in `receive_gateway_info`, with this part of the table -/
  | receiving (numbers : Numbers) (table : List HeldInfo)
  | finished (numbers : Numbers) (table : List HeldInfo)
  | failed

/-- A state: the threads, the master gateways and their connections; and of each cluster the
master gateway that it is connected with, what the server holds of its gateways, and whether it
is ready.  The server has closed its socket once all are, and has a world if it has not ended
then. -/
structure State where
  thread : Nat → Thread
  master : Nat → Master
  toServer : Nat → List ToServer
  toMaster : Nat → List ToMaster
  socket : Nat → Option Nat
  gateways : Nat → Nat → Option HeldInfo
  ready : Nat → Bool
  closed : Bool
  world : Option Server.State

variable (cfg : Configuration) (text : List UInt8 → String) (arrivals : Arrivals)

/-- What the server replies for cluster `i`. -/
def numbersFor (i : Nat) (c : Cluster) : Numbers :=
  ⟨cfg.replyFor i c, cfg.sizes.map UInt32.ofNat⟩

/-- All gateways, in the order of their addresses. -/
def allGateways : List (Nat × Nat) :=
  gatewayPairs cfg.clusters.length cfg.numberOfGatewaysPerCluster

/-- What `receiveGatewayInfo` makes of the addresses of gateway `index` in cluster `i`. -/
def holds (i index : Nat) (addresses : List Ipv4) : Option HeldInfo := do
  let c ← cfg.clusters[i]?
  let address ← selectAddress c.network c.netmask addresses
  return ⟨address, cfg.gatewayInfo c index⟩

namespace State

variable (s : State) (k : Nat)

section Server

/-- `accept`, and the end of `socket_connect`. -/
def accept : State :=
  match s.thread k, s.master k with
  | .idle, .connecting =>
    if s.closed then s
    else
      { s with
        thread := Function.update s.thread k .accepted
        master := Function.update s.master k .connected }
  | _, _ => s

/-- `connectionHandshake` up to `getCluster`. -/
def getCluster : State :=
  match s.thread k, s.toServer k with
  | .accepted, m :: rest =>
    let read : State := { s with toServer := Function.update s.toServer k rest }
    match m with
    | .handshake name =>
      if 0 < name.length ∧ name.length ≤ maxLengthClusterName then
        match cfg.getCluster text name with
        | some i => { read with thread := Function.update s.thread k (.found i) }
        | none =>
          { read with
            thread := Function.update s.thread k .failed
            toMaster := Queues.push s.toMaster k [.rejected] }
      else { read with thread := Function.update s.thread k .failed }
    | _ => { read with thread := Function.update s.thread k .failed }
  | _, _ => s

/-- `setConnection`. -/
def setConnection : State :=
  match s.thread k with
  | .found i =>
    match s.socket i with
    | some _ => { s with thread := Function.update s.thread k .failed }
    | none =>
      { s with
        thread := Function.update s.thread k (.connected i)
        socket := Function.update s.socket i (some k) }
  | _ => s

/-- `sendHandshakeReply`. -/
def sendHandshakeReply : State :=
  match s.thread k with
  | .connected i =>
    match cfg.clusters[i]? with
    | some c =>
      { s with
        thread := Function.update s.thread k (.receiving i 0)
        toMaster := Queues.push s.toMaster k [.accepted (numbersFor cfg i c)] }
    | none => s
  | _ => s

/-- `receiveGatewayInfo` and `setGatewayInfo`. -/
def receiveGatewayInfo : State :=
  match s.thread k, s.toServer k with
  | .receiving i index, m :: rest =>
    let read : State := { s with toServer := Function.update s.toServer k rest }
    match m with
    | .gatewayInfo clusterRank rank addresses =>
      if clusterRank = UInt32.ofNat i ∧ rank = UInt32.ofNat index ∧
          0 < (UInt32.ofNat addresses.length).toInt32.toInt then
        match holds cfg i index addresses with
        | some held =>
          { read with
            gateways := Function.update s.gateways i
              (Function.update (s.gateways i) index (some held))
            thread := Function.update s.thread k <|
              if index + 1 < cfg.numberOfGatewaysPerCluster then .receiving i (index + 1)
              else .sending i 0 }
        | none => { read with thread := Function.update s.thread k .failed }
      else { read with thread := Function.update s.thread k .failed }
    | _ => { read with thread := Function.update s.thread k .failed }
  | _, _ => s

/-- `getGatewayInfo`, which may have to wait, and `sendGatewayInfo`. -/
def sendGatewayInfo : State :=
  match s.thread k with
  | .sending i number =>
    match (allGateways cfg)[number]? with
    | some p =>
      match s.gateways p.1 p.2 with
      | some held =>
        { s with
          thread := Function.update s.thread k (.sending i (number + 1))
          toMaster := Queues.push s.toMaster k [.gateway held] }
      | none => s
    | none => s
  | _ => s

/-- The end of `performHandshake`. -/
def setReady : State :=
  match s.thread k with
  | .sending i number =>
    if number < (allGateways cfg).length then s
    else
      { s with
        thread := Function.update s.thread k (.finished i)
        ready := Function.update s.ready i true }
  | _ => s

/-- `signupComplete`, and behind the loop of `acceptConnections` `initCommWorld` and
`startClusters`. -/
def start : State :=
  if s.closed then s
  else if (List.range cfg.clusters.length).all s.ready then
    { s with closed := true, world := cfg.initCommWorld }
  else s

end Server

section Gateway

/-- `handshake` up to its reply. -/
def sendHandshake : State :=
  match s.master k with
  | .connected =>
    { s with
      master := Function.update s.master k .waiting
      toServer := Queues.push s.toServer k [.handshake (arrivals.gateway k).name] }
  | _ => s

/-- The end of `handshake`, and of `master_gateway_init`. -/
def receiveReply : State :=
  match s.master k, s.toMaster k with
  | .waiting, m :: rest =>
    let failed : State :=
      { s with
        master := Function.update s.master k .failed
        toMaster := Function.update s.toMaster k rest
        toServer := Queues.push s.toServer k [.closed] }
    match m with
    | .accepted numbers =>
      if numbers.reply.accepted ∧ numbers.reply.localApplicationSize + numbers.reply.gatewayCount =
          UInt32.ofNat (arrivals.gateway k).size then
        { s with
          master := Function.update s.master k (.sending numbers 0)
          toMaster := Function.update s.toMaster k rest }
      else failed
    | _ => failed
  | _, _ => s

/-- `send_gateway_info`, with the addresses of gateway `src`. -/
def sendAddresses : State :=
  match s.master k with
  | .sending numbers src =>
    { s with
      master := Function.update s.master k <|
        if src + 1 < numbers.reply.gatewayCount.toNat then .sending numbers (src + 1)
        else .receiving numbers []
      toServer := Queues.push s.toServer k
        [.gatewayInfo numbers.reply.clusterRank (UInt32.ofNat src)
          ((arrivals.gateway k).addresses src)] }
  | _ => s

/-- `receive_gateway`. -/
def receiveGateway : State :=
  match s.master k, s.toMaster k with
  | .receiving numbers table, m :: rest =>
    let read : State := { s with toMaster := Function.update s.toMaster k rest }
    match m with
    | .gateway held =>
      { read with
        master := Function.update s.master k <|
          if table.length + 1 < numbers.total then .receiving numbers (table ++ [held])
          else .finished numbers (table ++ [held]) }
    | _ => { read with master := Function.update s.master k .failed }
  | _, _ => s

end Gateway

end State

/-- What a thread of the server or a master gateway does next. -/
inductive Event where
  | accept (k : Nat)
  | sendHandshake (k : Nat)
  | getCluster (k : Nat)
  | setConnection (k : Nat)
  | sendHandshakeReply (k : Nat)
  | receiveReply (k : Nat)
  | sendAddresses (k : Nat)
  | receiveGatewayInfo (k : Nat)
  | sendGatewayInfo (k : Nat)
  | setReady (k : Nat)
  | receiveGateway (k : Nat)
  | start

/-- There is a master gateway for the event. -/
def Event.Possible : Event → Prop
  | .accept k | .sendHandshake k | .getCluster k | .setConnection k | .sendHandshakeReply k
  | .receiveReply k | .sendAddresses k | .receiveGatewayInfo k | .sendGatewayInfo k | .setReady k
  | .receiveGateway k => k < arrivals.number
  | .start => True

instance (e : Event) : Decidable (e.Possible arrivals) := by
  cases e <;> unfold Event.Possible <;> infer_instance

/-- What the event changes. -/
def State.change (s : State) : Event → State
  | .accept k => s.accept k
  | .sendHandshake k => s.sendHandshake arrivals k
  | .getCluster k => s.getCluster cfg text k
  | .setConnection k => s.setConnection k
  | .sendHandshakeReply k => s.sendHandshakeReply cfg k
  | .receiveReply k => s.receiveReply arrivals k
  | .sendAddresses k => s.sendAddresses arrivals k
  | .receiveGatewayInfo k => s.receiveGatewayInfo cfg k
  | .sendGatewayInfo k => s.sendGatewayInfo cfg k
  | .setReady k => s.setReady cfg k
  | .receiveGateway k => s.receiveGateway k
  | .start => s.start cfg

/-- A step of a run that changes something. -/
def Moves (s s' : State) : Prop :=
  s' ≠ s ∧ ∃ e : Event, e.Possible arrivals ∧ s' = s.change cfg text arrivals e

/-- The server listens, and all master gateways are on their way. -/
def start : State where
  thread := fun _ => .idle
  master := fun _ => .connecting
  toServer := fun _ => []
  toMaster := fun _ => []
  socket := fun _ => none
  gateways := fun _ _ => none
  ready := fun _ => false
  closed := false
  world := none

/-- The cluster that the server finds for a master gateway. -/
def Arrivals.found (k : Nat) : Option Nat :=
  if 0 < (arrivals.gateway k).name.length then cfg.getCluster text (arrivals.gateway k).name
  else none

/-- What the server would hold of gateway `index` if this master gateway were that of
cluster `i`. -/
def Arrivals.held (i k index : Nat) : Option HeldInfo :=
  holds cfg i index ((arrivals.gateway k).addresses index)

/-- **Everybody has signed up**: the messaging has started, on the world of all application
processes, and each cluster has a master gateway of its name, which knows the numbers of its
cluster and has a table with the gateways of those master gateways. -/
def SignedUp (s : State) : Prop :=
  s.world = some [some (Server.Communicator.fresh 0
      (Server.tablesSpec (Server.membersFrom 0 cfg.sizes))), none, none] ∧
    ∃ site : Nat → Nat, ∀ i c, cfg.clusters[i]? = some c →
      site i < arrivals.number ∧ arrivals.found cfg text (site i) = some i ∧
        s.thread (site i) = .finished i ∧
          ∃ table, s.master (site i) = .finished (numbersFor cfg i c) table ∧
            table.map some = (allGateways cfg).map fun p => arrivals.held cfg p.1 (site p.1) p.2

/-- A master gateway can be that of cluster `i`: the number of its processes is that in the
configuration, which the gateways allow, and each of its gateways has an address in the network
of the cluster. -/
structure Fits (i k : Nat) (c : Cluster) : Prop where
  allowed : c.applicationProcesses < maxProcessesPerCluster
  size : UInt32.ofNat c.applicationProcesses + UInt32.ofNat cfg.numberOfGatewaysPerCluster =
    UInt32.ofNat (arrivals.gateway k).size
  network : ∀ index < cfg.numberOfGatewaysPerCluster, (arrivals.held cfg i k index).isSome

/-- Every cluster has a master gateway of its name, every master gateway of its name fits, and the
number of all application processes is an `int`. -/
structure Everyone : Prop where
  counted : cfg.sizes.sum < 2 ^ 31
  named : ∀ i < cfg.clusters.length, ∃ k < arrivals.number, arrivals.found cfg text k = some i
  fits : ∀ k < arrivals.number, ∀ i c, arrivals.found cfg text k = some i →
    cfg.clusters[i]? = some c → Fits cfg arrivals i k c

end SignUp

end EsalsaMpi
