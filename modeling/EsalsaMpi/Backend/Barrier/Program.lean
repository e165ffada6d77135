import EsalsaMpi.Backend.Broadcast
import EsalsaMpi.Backend.Flags
import EsalsaMpi.Backend.Receive

/-!
# The program of `EMPI_Barrier`

On a communicator with members in several clusters a barrier has three steps: a
barrier of the MPI library among the members of each cluster, messages between
the coordinators of the clusters, and once more a barrier in each cluster.  The
coordinator of the first cluster receives a message from every other one and then
broadcasts a message to them; the others send theirs and wait for it.

`empiBarrier` is the row of actions of one process.  The loops of the source are
spelled out, since their bounds and the ranks they use stay the same during a
call; what the messages carry is not, as it is in the buffer.
`Barriers.Step` puts the processes together: they call barriers again and again,
a process leaves the barrier of its library when everybody in it has entered, and
messages may take any time and overtake each other.
-/

namespace EsalsaMpi

/-- What a process does in a barrier.  It enters and leaves the first or the
second `PMPI_Barrier`, receives from coordinator `i`, takes the round for `i` of
the loop in `messaging_bcast`, sends to coordinator 0, or awaits its broadcast. -/
inductive BarrierAction where
  | enter (second : Bool)
  | leave (second : Bool)
  | receive (i : Nat)
  | bcast (i : Nat)
  | send
  | await
deriving DecidableEq, Repr

open BarrierAction

/-- The counts from 1 of a loop over the clusters. -/
def fromOne (count : Nat) : List Nat := (List.range (count - 1)).map (· + 1)

/-- Step 2 of `EMPI_Barrier` at the member `rank`, on a communicator with tables
`t` and `count` clusters, in a run with `clusterCount` clusters. -/
def wideAreaBarrier (clusterCount : Nat) (t : Tables) (count rank : Nat) : List BarrierAction :=
  if t.coordinators[0]? = some rank then
    (fromOne count).map receive ++ (List.range clusterCount).map bcast
  else
    (fromOne count).flatMap fun i =>
      if t.coordinators[i]? = some rank then [send, await] else []

/-- `EMPI_Barrier` on a communicator that is not local. -/
def globalBarrier (clusterCount : Nat) (t : Tables) (count rank : Nat) : List BarrierAction :=
  [enter false, leave false] ++ wideAreaBarrier clusterCount t count rank ++
    [enter true, leave true]

/-- `EMPI_Barrier`. -/
def empiBarrier (clusterCount : Nat) (c : Communicator) : List BarrierAction :=
  if c.commIsLocal then
    [enter false, leave false]
  else
    globalBarrier clusterCount c.tables c.clusterCount c.globalRank

/-- Processes in barriers on one communicator: what each has left of its barrier,
its buffer, how many barriers it has entered and how many it has returned from,
and how many barriers of its library it has entered; the messages on their way,
and those that have arrived. -/
structure Barriers where
  left : Pid → List BarrierAction
  buffer : Pid → List UInt8
  entered : Pid → Nat
  returned : Pid → Nat
  arrivals : Pid → Nat
  gateways : List DataMessage
  mailbox : Pid → Mailbox

namespace Barriers

/-- A process calls `EMPI_Barrier`. -/
def call (s : Barriers) (clusterCount : Nat) (pid : Pid) (c : Communicator) : Barriers :=
  { s with
    left := Function.update s.left pid (empiBarrier clusterCount c)
    buffer := Function.update s.buffer pid [42]
    entered := Function.update s.entered pid (s.entered pid + 1) }

/-- A process has taken an action, before `rest`. -/
def act (s : Barriers) (pid : Pid) (rest : List BarrierAction) : Barriers :=
  { s with left := Function.update s.left pid rest }

/-- A message sets out. -/
def post (s : Barriers) (m : DataMessage) : Barriers := { s with gateways := m :: s.gateways }

/-- A process has taken a message from its mailbox. -/
def took (s : Barriers) (pid : Pid) (buf : List UInt8) (mb : Mailbox) : Barriers :=
  { s with
    buffer := Function.update s.buffer pid buf
    mailbox := Function.update s.mailbox pid mb }

variable (pk : Packing UInt8) (type : Int) (clusterCount : Nat) (procs : Pid → Option Process)
  (n : Nat)

/-- The steps of the processes of `procs` on communicator `n`.  Other messages
may be on their way too, as long as they are for other communicators or have
other tags. -/
inductive Step : Barriers → Barriers → Prop where
  | call {s : Barriers} {pid : Pid} {p : Process} {c : Communicator} (hp : procs pid = some p)
      (hc : p.comms n = some c) (hidle : s.returned pid = s.entered pid) :
      Step s (s.call clusterCount pid c)
  | enter {s : Barriers} {pid : Pid} {p : Process} {c : Communicator} {second : Bool}
      {rest : List BarrierAction} (hp : procs pid = some p) (hc : p.comms n = some c)
      (hleft : s.left pid = enter second :: rest) :
      Step s { s.act pid rest with
        arrivals := Function.update s.arrivals pid (s.arrivals pid + 1) }
  | leave {s : Barriers} {pid : Pid} {p : Process} {c : Communicator} {second : Bool}
      {rest : List BarrierAction} (hp : procs pid = some p) (hc : p.comms n = some c)
      (hleft : s.left pid = leave second :: rest)
      (hall : ∀ q ∈ c.comm, s.arrivals pid ≤ s.arrivals q) : Step s (s.act pid rest)
  | send {s : Barriers} {pid : Pid} {p : Process} {c : Communicator} {rest : List BarrierAction}
      {dest : Nat} {m : DataMessage} (hp : procs pid = some p) (hc : p.comms n = some c)
      (hleft : s.left pid = send :: rest) (hdest : c.tables.coordinators[0]? = some dest)
      (hm : messagingSend pk p.pid (s.buffer pid) dest barrierTag c = some m) :
      Step s ((s.act pid rest).post m)
  | skip {s : Barriers} {pid : Pid} {p : Process} {c : Communicator} {i : Nat}
      {rest : List BarrierAction} (hp : procs pid = some p) (hc : p.comms n = some c)
      (hleft : s.left pid = bcast i :: rest) (hi : i = p.clusterRank) : Step s (s.act pid rest)
  | bcast {s : Barriers} {pid : Pid} {p : Process} {c : Communicator} {i : Nat}
      {rest : List BarrierAction} {m : DataMessage} (hp : procs pid = some p)
      (hc : p.comms n = some c) (hleft : s.left pid = bcast i :: rest) (hi : i ≠ p.clusterRank)
      (hm : bcastSend pk p.pid (s.buffer pid) c i = some m) : Step s ((s.act pid rest).post m)
  | receive {s : Barriers} {pid : Pid} {p : Process} {c : Communicator} {i : Nat}
      {rest : List BarrierAction} {source : Nat} {result : List UInt8 × Status} {mb : Mailbox}
      (hp : procs pid = some p) (hc : p.comms n = some c)
      (hleft : s.left pid = receive i :: rest)
      (hsource : c.tables.coordinators[i]? = some source)
      (hreceive : messagingReceive pk c (s.buffer pid) 1 type source barrierTag (s.mailbox pid) =
        .done result mb) : Step s ((s.act pid rest).took pid result.1 mb)
  | await {s : Barriers} {pid : Pid} {p : Process} {c : Communicator} {rest : List BarrierAction}
      {source : Nat} {result : List UInt8 × Status} {mb : Mailbox} (hp : procs pid = some p)
      (hc : p.comms n = some c) (hleft : s.left pid = await :: rest)
      (hsource : c.tables.coordinators[0]? = some source)
      (hreceive : messagingReceive pk c (s.buffer pid) 1 type source bcastTag (s.mailbox pid) =
        .done result mb) : Step s ((s.act pid rest).took pid result.1 mb)
  | poll {s : Barriers} {pid : Pid} {pat : Pattern} {blocking : Bool} {mb : Mailbox}
      (hpoll : (s.mailbox pid).poll pat blocking = .pending mb) :
      Step s { s with mailbox := Function.update s.mailbox pid mb }
  | return {s : Barriers} {pid : Pid} (hleft : s.left pid = [])
      (hbusy : s.returned pid < s.entered pid) :
      Step s { s with returned := Function.update s.returned pid (s.returned pid + 1) }
  | forward {s : Barriers} {m : DataMessage} {before after : List DataMessage} {seq : Nat}
      (hm : s.gateways = before ++ m :: after) :
      Step s { s with
        gateways := before ++ after
        mailbox := Function.update s.mailbox m.dstPid ((s.mailbox m.dstPid).arrive ⟨seq, m⟩) }
  | other {s : Barriers} {m : DataMessage}
      (hm : m.comm ≠ n ∨ (m.tag ≠ barrierTag ∧ m.tag ≠ bcastTag)) : Step s (s.post m)

/-- Before the first barrier. -/
def start : Barriers where
  left := fun _ => []
  buffer := fun _ => []
  entered := fun _ => 0
  returned := fun _ => 0
  arrivals := fun _ => 0
  gateways := []
  mailbox := fun pid =>
    ⟨[], fun h => ((procs pid).bind fun p => p.comms h).map fun _ => []⟩

/-- The states of a run. -/
def Reachable (s : Barriers) : Prop :=
  Relation.ReflTransGen (Step pk type clusterCount procs n) (start procs) s

end Barriers

end EsalsaMpi
