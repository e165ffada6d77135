import EsalsaMpi.Backend.Mailbox
import EsalsaMpi.Concurrent.Numbering
import EsalsaMpi.Server.JobReplies

/-!
# A run of an application

`Concurrent` with processes that follow their program: a process that runs
sends data on its communicators, takes data that has arrived, or makes one of
the calls split, create and dup.  In a call it sends its request and waits for
the reply; when it has it, all it does before it goes on is to take part in a
call of the cluster's own library and to enter the new communicator in its
table, so that taking the reply and the rest of the call are one step.  What
this library returns is left open as far as `Process.Returns` allows.

Data goes through gateways, which may deliver it at any time and in any order.
A process may end while it runs or when its call fails.  `EMPI_Comm_free` leaves
the table alone, so there is no step for it.

The phase of a process also tells where its request is, of which the process
knows nothing before the reply.
-/

namespace EsalsaMpi

/-- A call: the handle and what the request asks for. -/
structure Call where
  handle : Nat
  operation : Server.Operation
deriving DecidableEq, Repr

/-- Where a process is.  Its request is on its way, stored at the server, being
worked on, answered, or lost without an answer. -/
inductive Phase where
  | running
  | sent (call : Call)
  | stored (call : Call)
  | working (call : Call)
  | answered (call : Call)
  | lost (call : Call)
  | ended
deriving DecidableEq, Repr

namespace Phase

/-- The call of a process that waits for its reply. -/
def call : Phase → Option Call
  | .sent call => some call
  | .stored call => some call
  | .working call => some call
  | .answered call => some call
  | .lost call => some call
  | _ => none

/-- Another phase of the same call. -/
def moveTo (phase : Call → Phase) (ph : Phase) : Phase :=
  match ph.call with
  | some call => phase call
  | none => ph

end Phase

/-- A run: what happens at server and tables, the phases of the processes, data
in the gateways and in the library of its destination, and a record of what each
process has asked for on each handle, how many of these requests have been
answered, the operations that the server has begun on each communicator, and the
requests dropped with "unknown communicator". -/
structure Application where
  base : Concurrent
  phase : Pid → Phase
  gateways : List DataMessage
  arrived : Pid → List DataMessage
  issued : Nat → Pid → List Server.Operation
  answers : Nat → Pid → Nat
  rounds : Nat → Nat
  dropped : List Server.CommunicatorRequest

/-- The request that a process sends for its communicator `c`. -/
def Process.request (p : Process) (c : Communicator) (op : Server.Operation) :
    Server.CommunicatorRequest :=
  ⟨p.pid, c.handle, c.globalRank, op⟩

theorem Collective.request_eq_request (op : Collective) (p : Process) (c : Communicator) :
    op.request p c = p.request c (op.operation p.pid) := op.request_eq p c

namespace Application

/-- A process calls split, create or dup. -/
def call (s : Application) (pid : Pid) (p : Process) (c : Communicator) (handle : Nat)
    (op : Server.Operation) : Application :=
  { s with
    base := s.base.request (p.request c op)
    phase := Function.update s.phase pid (.sent ⟨handle, op⟩)
    issued := Function.update s.issued handle
      (Function.update (s.issued handle) pid (s.issued handle pid ++ [op])) }

variable (cfg : Server.Config) (order : Server.HashOrder)

/-- What the delivery of a request means for the processes, the number of
operations begun on its communicator and the requests dropped. -/
structure Delivery where
  phase : Pid → Phase
  begun : Nat
  dropped : List Server.CommunicatorRequest

/-- The delivery of `req`. -/
def delivery (s : Application) (req : Server.CommunicatorRequest) : Delivery :=
  let move (phase : Call → Phase) : Pid → Phase :=
    Function.update s.phase req.source ((s.phase req.source).moveTo phase)
  match s.base.server[req.communicator]? with
  | some (some c) =>
    match c.messages[req.rank]? with
    | some none =>
      if c.participants + 1 = c.size then
        let requests := (c.store req).requests
        let audience := ((c.store req).jobs cfg order requests).flatMap Server.Job.audience
        { phase := fun pid =>
            if pid ∈ requests.map (·.source) then
              (s.phase pid).moveTo (if pid ∈ audience then .working else .lost)
            else
              s.phase pid
          begun := 1
          dropped := [] }
      else
        ⟨move .stored, 0, []⟩
    | _ => ⟨move .lost, 0, []⟩
  | _ => ⟨move .lost, 0, [req]⟩

/-- A receiver thread of the server delivers `req`. -/
def deliver (s : Application) (req : Server.CommunicatorRequest)
    (left : List Server.CommunicatorRequest) : Application :=
  let d := s.delivery cfg order req
  { s with
    base := s.base.deliver cfg order req left
    phase := d.phase
    rounds := Function.update s.rounds req.communicator (s.rounds req.communicator + d.begun)
    dropped := s.dropped ++ d.dropped }

/-- A thread does a job on communicator `n`.  Whoever it sends a reply to is
answered; an exception leaves the others without. -/
def perform (s : Application) (n : Nat) (job : Server.Job) (jobs : List Server.Job) :
    Application :=
  match job.run cfg s.base.server with
  | none =>
    { s with
      base := s.base.perform cfg n job jobs
      phase := fun pid =>
        if pid ∈ (job :: jobs).flatMap Server.Job.audience then (s.phase pid).moveTo .lost
        else s.phase pid }
  | some (_, ms) =>
    { s with
      base := s.base.perform cfg n job jobs
      phase := fun pid =>
        if pid ∈ ms.map Server.Reply.destination then (s.phase pid).moveTo .answered
        else s.phase pid
      answers := Function.update s.answers n fun pid =>
        s.answers n pid + (ms.map Server.Reply.destination).count pid }

/-- The process `pid` has taken its reply and finished its call. -/
def accept (s : Application) (pid : Pid) (p : Process) (left : List Server.ReplyBody) :
    Application :=
  { s with
    base := s.base.accept pid p left
    phase := Function.update s.phase pid .running }

/-- The steps of a run. -/
inductive Step : Application → Application → Prop where
  | call {s : Application} {pid : Pid} {p : Process} {c : Communicator} {handle : Nat}
      {op : Server.Operation} (hphase : s.phase pid = .running)
      (hp : s.base.processes pid = some p) (hc : p.comms handle = some c)
      (hlegal : op.Legal c.tables.members) : Step s (s.call pid p c handle op)
  | deliver {s : Application} {req : Server.CommunicatorRequest}
      {before after : List Server.CommunicatorRequest}
      (hrequest : s.base.requests req.source = before ++ req :: after)
      (hmonitor : s.base.work req.communicator = []) :
      Step s (s.deliver cfg order req (before ++ after))
  | perform {s : Application} {n : Nat} {job : Server.Job} {jobs : List Server.Job}
      (hwork : s.base.work n = job :: jobs) : Step s (s.perform cfg n job jobs)
  | accept {s : Application} {pid : Pid} {p : Process} {c : Communicator} {call : Call}
      {body : Server.ReplyBody} {before after : List Server.ReplyBody}
      {comm : Option (List Pid)} (hphase : s.phase pid = .answered call)
      (hp : s.base.processes pid = some p) (hc : p.comms call.handle = some c)
      (hreply : s.base.replies pid = before ++ body :: after)
      (hcomm : p.Returns call.operation body comm) :
      Step s (s.accept pid ((p.conclude c call.operation body comm).getD p) (before ++ after))
  | halt {s : Application} {pid : Pid}
      (hphase : s.phase pid = .running ∨ ∃ call, s.phase pid = .answered call) :
      Step s { s with phase := Function.update s.phase pid .ended }
  | send {s : Application} {pid : Pid} {p : Process} {c : Communicator} {handle : Nat}
      {α : Type} {pk : Packing α} {opcode dest : Nat} {buf : List α} {tag : Int}
      {m : DataMessage} (hphase : s.phase pid = .running)
      (hp : s.base.processes pid = some p) (hc : p.comms handle = some c)
      (hm : doSend pk pid opcode buf dest tag c = some m) :
      Step s { s with gateways := m :: s.gateways }
  | forward {s : Application} {m : DataMessage} {before after : List DataMessage}
      (hm : s.gateways = before ++ m :: after) :
      Step s { s with
        gateways := before ++ after
        arrived := Queues.push s.arrived m.dstPid [m] }
  | take {s : Application} {pid : Pid} {m : DataMessage} {before after : List DataMessage}
      (hphase : s.phase pid = .running) (hm : s.arrived pid = before ++ m :: after) :
      Step s { s with arrived := Function.update s.arrived pid (before ++ after) }

/-- The start of a run: everybody has built the world. -/
def start (server : Server.State) : Application where
  base := Concurrent.start cfg server
  phase := fun _ => .running
  gateways := []
  arrived := fun _ => []
  issued := fun _ _ => []
  answers := fun _ _ => 0
  rounds := fun _ => 0
  dropped := []

/-- The states of a run. -/
def Reachable (s : Application) : Prop :=
  ∃ server, Server.initCommWorld cfg = some server ∧
    Relation.ReflTransGen (Step cfg order) (start cfg server) s

end Application

end EsalsaMpi
