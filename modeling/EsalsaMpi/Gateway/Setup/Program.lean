import Mathlib.Logic.Function.Basic
import Mathlib.Logic.Relation

/-!
# Connections between the gateways

Each gateway has a connection to the gateway of its rank in every other cluster, with
one socket for each stream.  It first accepts from the gateways of the clusters
before its own, in their order, and waits after each for an opcode that tells
that this gateway has connected to everybody; then it connects to the gateways
of the clusters after its own, and tells them.

To accept for a stream it opens a listener, takes the oldest connection from its
backlog, closes the listener again, and compares the host of the connection with
the one it expects.  A connection that waits in the backlog counts as
established at the other end; it is lost when the listener is closed.

Listeners are found by host and port only.  The hosts are told apart by their
addresses, and no other program uses their ports; but two gateways may share a host, and
then one cannot `bind` to a port while the other has its listener there, and who
connects to one may get to the other.

`AllGateways.Paired` is what the set-up is for: when the calls for a pair of gateways
have returned, the two hold the ends of the same connections.
-/

namespace EsalsaMpi

/-- `MAX_STREAMS`, the length of the array of sockets of a connection. -/
def maxStreams : Nat := 16

/-- What a gateway reads of `gateway_addresses`: the entries of the gateways of its own
rank, one in each cluster.  The server tells all of them the same number of streams, and
does not start without one. -/
structure GatewayTable where
  rank : Nat
  clusterCount : Nat
  streams : Nat
  ipv4 : Nat → UInt32
  port : Nat → Nat
  streams_pos : 0 < streams

/-- A TCP connection, by the call of `socket_connect` that made it: there is one for
each stream from a gateway to the one of its rank in another cluster. -/
structure TcpConnection where
  client : Nat
  server : Nat
  stream : Nat
  rank : Nat
deriving DecidableEq, Repr

/-- A socket after `listen`, with the port that `socket_accept` has been called for. -/
structure Listener where
  port : Nat
  backlog : List TcpConnection
deriving DecidableEq, Repr

/-- Where a gateway is in `connect_gateways`.  While it accepts: before `bind` and
`listen`, in `accept`, before `close` with the new socket, and in
`receive_gateway_ready_opcode`.  While it connects: in `socket_connect`, and in
`send_gateway_ready_opcode`.  It has ended when it has returned, when it has found
an unexpected host, or when it has used the array of sockets out of its bounds. -/
inductive SetupPhase where
  | listen (crank s : Nat)
  | accept (crank s : Nat)
  | close (crank s : Nat) (socket : TcpConnection)
  | await (crank : Nat)
  | connect (i s : Nat)
  | ready (i : Nat)
  | returned
  | unexpectedHost (crank : Nat)
  | outOfBounds
deriving DecidableEq, Repr

namespace GatewayTable

variable (t : GatewayTable)

/-- The call `connect_to_gateways(crank, local_port)` of cluster `k`, for `crank`
up to `k`; the calls after that do nothing. -/
def connectToGateways (k crank : Nat) : SetupPhase :=
  if crank < k then
    .listen crank 0
  else if k + 1 < t.clusterCount then
    .connect (k + 1) 0
  else
    .returned

/-- The loop over the streams from gateway `crank`. -/
def afterAccept (crank s : Nat) : SetupPhase :=
  if s + 1 < t.streams then .listen crank (s + 1) else .await crank

/-- The loops over the clusters after cluster `k` and the streams to them. -/
def afterConnect (k i s : Nat) : SetupPhase :=
  if s + 1 < t.streams then
    .connect i (s + 1)
  else if i + 1 < t.clusterCount then
    .connect (i + 1) 0
  else
    .ready (k + 1)

/-- The loop that sends the opcodes. -/
def afterReady (i : Nat) : SetupPhase :=
  if i + 1 < t.clusterCount then .ready (i + 1) else .returned

end GatewayTable

/-- `gateway_addresses`.  A gateway is given by its cluster and its rank there. -/
structure GatewayAddresses where
  clusterCount : Nat
  gatewayCount : Nat
  streams : Nat
  ipv4 : Nat × Nat → UInt32
  port : Nat × Nat → Nat
  streams_pos : 0 < streams
  gatewayCount_pos : 0 < gatewayCount

namespace GatewayAddresses

/-- The entries `i * gateway_count + gateway_rank`. -/
def ofRank (a : GatewayAddresses) (r : Nat) : GatewayTable where
  rank := r
  clusterCount := a.clusterCount
  streams := a.streams
  ipv4 := fun k => a.ipv4 (k, r)
  port := fun k => a.port (k, r)
  streams_pos := a.streams_pos

/-- The port of a stream, which the calls take as an `unsigned short`. -/
def streamPort (a : GatewayAddresses) (g : Nat × Nat) (stream : Nat) : Nat :=
  (a.port g + stream) % 65536

end GatewayAddresses

/-- All gateways: where each is, its listener and the port that this is bound to, at
`(g, i, s)` the socket `gateway_connections[i].sockets[s]` of gateway `g`, the
connections that carry an opcode that has not been received, and the gateways that
have ended because `bind` has failed. -/
structure AllGateways where
  phase : Nat × Nat → SetupPhase
  listener : Nat × Nat → Option Listener
  bound : Nat × Nat → Nat
  sockets : (Nat × Nat) × Nat × Nat → Option TcpConnection
  opcodes : List TcpConnection
  failed : List (Nat × Nat)

namespace AllGateways

variable (a : GatewayAddresses)

/-- Gateway `g` goes on. -/
def goto (s : AllGateways) (g : Nat × Nat) (p : SetupPhase) : AllGateways :=
  { s with phase := Function.update s.phase g p }

/-- The listener of gateway `g` changes. -/
def listening (s : AllGateways) (g : Nat × Nat) (l : Option Listener) : AllGateways :=
  { s with listener := Function.update s.listener g l }

/-- `init_socket_info` for the socket of stream `stream` to cluster `i`, before
gateway `g` goes on. -/
def initSocketInfo (s : AllGateways) (g : Nat × Nat) (i stream : Nat) (socket : TcpConnection)
    (next : SetupPhase) : AllGateways :=
  if stream < maxStreams then
    { s with sockets := Function.update s.sockets (g, i, stream) (some socket) }.goto g next
  else
    s.goto g .outOfBounds

/-- The end of `socket_accept`, and of the round of the loop around it. -/
def checkHost (s : AllGateways) (g : Nat × Nat) (crank stream : Nat) (socket : TcpConnection) :
    AllGateways :=
  if a.ipv4 (crank, g.2) = a.ipv4 (socket.client, socket.rank) then
    s.initSocketInfo g crank stream socket ((a.ofRank g.2).afterAccept crank stream)
  else
    s.goto g (.unexpectedHost crank)

/-- A listener on the host of gateway `g` is bound to the port. -/
def Taken (s : AllGateways) (g : Nat × Nat) (port : Nat) : Prop :=
  ∃ g', s.listener g' ≠ none ∧ a.ipv4 g' = a.ipv4 g ∧ s.bound g' = port

/-- `bind`, with the port that the socket gets: any that is free for port 0. -/
def Binds (s : AllGateways) (g : Nat × Nat) (asked port : Nat) : Prop :=
  port ≠ 0 ∧ (asked = 0 ∨ port = asked) ∧ ¬ s.Taken a g port

/-- The steps of the gateways.  A `connect` that finds no listener with the host and the
port is tried again. -/
inductive Step : AllGateways → AllGateways → Prop where
  | listen {s : AllGateways} {g : Nat × Nat} {crank stream port : Nat}
      (hphase : s.phase g = .listen crank stream) (hrunning : g ∉ s.failed)
      (hport : s.Binds a g (a.streamPort g stream) port) :
      Step s (({ s with bound := Function.update s.bound g port }.listening g
        (some ⟨a.port g + stream, []⟩)).goto g (.accept crank stream))
  | bind {s : AllGateways} {g : Nat × Nat} {crank stream : Nat}
      (hphase : s.phase g = .listen crank stream) (hrunning : g ∉ s.failed)
      (htaken : s.Taken a g (a.streamPort g stream)) :
      Step s { s with failed := g :: s.failed }
  | accept {s : AllGateways} {g : Nat × Nat} {crank stream port : Nat} {socket : TcpConnection}
      {backlog : List TcpConnection} (hphase : s.phase g = .accept crank stream)
      (hlistener : s.listener g = some ⟨port, socket :: backlog⟩) :
      Step s ((s.listening g (some ⟨port, backlog⟩)).goto g (.close crank stream socket))
  | close {s : AllGateways} {g : Nat × Nat} {crank stream : Nat} {socket : TcpConnection}
      (hphase : s.phase g = .close crank stream socket) :
      Step s ((s.listening g none).checkHost a g crank stream socket)
  | await {s : AllGateways} {g : Nat × Nat} {crank : Nat} {socket : TcpConnection}
      (hphase : s.phase g = .await crank) (hsocket : s.sockets (g, crank, 0) = some socket)
      (hopcode : socket ∈ s.opcodes) :
      Step s ({ s with opcodes := s.opcodes.erase socket }.goto g
        ((a.ofRank g.2).connectToGateways g.1 (crank + 1)))
  | connect {s : AllGateways} {g g' : Nat × Nat} {i stream : Nat} {l : Listener}
      (hphase : s.phase g = .connect i stream) (hlistener : s.listener g' = some l)
      (hhost : a.ipv4 g' = a.ipv4 (i, g.2)) (hport : s.bound g' = a.streamPort (i, g.2) stream) :
      Step s ((s.listening g'
        (some ⟨l.port, l.backlog ++ [⟨g.1, i, stream, g.2⟩]⟩)).initSocketInfo g i stream
          ⟨g.1, i, stream, g.2⟩ ((a.ofRank g.2).afterConnect g.1 i stream))
  | ready {s : AllGateways} {g : Nat × Nat} {i : Nat} {socket : TcpConnection}
      (hphase : s.phase g = .ready i) (hsocket : s.sockets (g, i, 0) = some socket) :
      Step s ({ s with opcodes := socket :: s.opcodes }.goto g ((a.ofRank g.2).afterReady i))

/-- Before `connect_gateways`. -/
def start : AllGateways where
  phase := fun g => if g.1 < a.clusterCount ∧ g.2 < a.gatewayCount then
    (a.ofRank g.2).connectToGateways g.1 0 else .returned
  listener := fun _ => none
  bound := fun _ => 0
  sockets := fun _ => none
  opcodes := []
  failed := []

/-- The states of a run. -/
def Reachable (s : AllGateways) : Prop := Relation.ReflTransGen (Step a) (start a) s

end AllGateways

end EsalsaMpi
