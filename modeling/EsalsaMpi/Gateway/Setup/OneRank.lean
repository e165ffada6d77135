import EsalsaMpi.Gateway.Setup.Program

/-!
# The gateways of one rank

The gateways of one rank by themselves, where each listener is found by the gateway
that has opened it and not by host and port: who connects to a gateway either gets to
this one, or waits.

The other modules show how such gateways get on, and what they have to do with the
gateways that share hosts and ports.
-/

namespace EsalsaMpi

/-- The gateways of one rank, one in each cluster: where each is, its listener, at
`(k, i, s)` the socket `gateway_connections[i].sockets[s]` of the gateway in
cluster `k`, and the connections that carry an opcode that has not been received. -/
structure GatewaySetup where
  phase : Nat → SetupPhase
  listener : Nat → Option Listener
  sockets : Nat × Nat × Nat → Option TcpConnection
  opcodes : List TcpConnection

namespace GatewaySetup

/-- Gateway `k` goes on. -/
def goto (s : GatewaySetup) (k : Nat) (p : SetupPhase) : GatewaySetup :=
  { s with phase := Function.update s.phase k p }

@[simp] theorem phase_goto (s : GatewaySetup) (k : Nat) (p : SetupPhase) :
    (s.goto k p).phase k = p := by
  simp [goto]

/-- The listener of gateway `k` changes. -/
def listening (s : GatewaySetup) (k : Nat) (l : Option Listener) : GatewaySetup :=
  { s with listener := Function.update s.listener k l }

/-- `init_socket_info` for the socket of stream `stream` to gateway `i`, before
gateway `k` goes on. -/
def initSocketInfo (s : GatewaySetup) (k i stream : Nat) (socket : TcpConnection) (next : SetupPhase) :
    GatewaySetup :=
  if stream < maxStreams then
    { s with sockets := Function.update s.sockets (k, i, stream) (some socket) }.goto k next
  else
    s.goto k .outOfBounds

/-- The end of `socket_accept`, and of the round of the loop around it. -/
def checkHost (t : GatewayTable) (s : GatewaySetup) (k crank stream : Nat) (socket : TcpConnection) :
    GatewaySetup :=
  if t.ipv4 crank = t.ipv4 socket.client then
    s.initSocketInfo k crank stream socket (t.afterAccept crank stream)
  else
    s.goto k (.unexpectedHost crank)

/-- The steps of the gateways. -/
inductive Step (t : GatewayTable) : GatewaySetup → GatewaySetup → Prop where
  | listen {s : GatewaySetup} {k crank stream : Nat} (hphase : s.phase k = .listen crank stream)
      (hclosed : s.listener k = none) :
      Step t s ((s.listening k (some ⟨t.port k + stream, []⟩)).goto k (.accept crank stream))
  | accept {s : GatewaySetup} {k crank stream port : Nat} {socket : TcpConnection}
      {backlog : List TcpConnection} (hphase : s.phase k = .accept crank stream)
      (hlistener : s.listener k = some ⟨port, socket :: backlog⟩) :
      Step t s ((s.listening k (some ⟨port, backlog⟩)).goto k (.close crank stream socket))
  | close {s : GatewaySetup} {k crank stream : Nat} {socket : TcpConnection}
      (hphase : s.phase k = .close crank stream socket) :
      Step t s ((s.listening k none).checkHost t k crank stream socket)
  | await {s : GatewaySetup} {k crank : Nat} {socket : TcpConnection} (hphase : s.phase k = .await crank)
      (hsocket : s.sockets (k, crank, 0) = some socket) (hopcode : socket ∈ s.opcodes) :
      Step t s ({ s with opcodes := s.opcodes.erase socket }.goto k
        (t.connectToGateways k (crank + 1)))
  | connect {s : GatewaySetup} {k i stream : Nat} {backlog : List TcpConnection}
      (hphase : s.phase k = .connect i stream)
      (hlistener : s.listener i = some ⟨t.port i + stream, backlog⟩) :
      Step t s ((s.listening i
        (some ⟨t.port i + stream, backlog ++ [⟨k, i, stream, t.rank⟩]⟩)).initSocketInfo k i stream
          ⟨k, i, stream, t.rank⟩ (t.afterConnect k i stream))
  | ready {s : GatewaySetup} {k i : Nat} {socket : TcpConnection} (hphase : s.phase k = .ready i)
      (hsocket : s.sockets (k, i, 0) = some socket) :
      Step t s ({ s with opcodes := socket :: s.opcodes }.goto k (t.afterReady i))

/-- Before `connect_gateways`. -/
def start (t : GatewayTable) : GatewaySetup where
  phase := fun k => if k < t.clusterCount then t.connectToGateways k 0 else .returned
  listener := fun _ => none
  sockets := fun _ => none
  opcodes := []

/-- The states of a run. -/
def Reachable (t : GatewayTable) (s : GatewaySetup) : Prop :=
  Relation.ReflTransGen (Step t) (start t) s

end GatewaySetup

end EsalsaMpi
