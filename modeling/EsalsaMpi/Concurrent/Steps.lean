import EsalsaMpi.Backend.Calls
import EsalsaMpi.Library.Queues
import EsalsaMpi.Server.Jobs

/-!
# The server with its threads

Where `System` performs one operation after another, requests on different
communicators here reach the server in any order, the threads of the server
take turns between the jobs of their operations, and every process takes its
reply when it gets to it.  `Concurrent.Step` leaves open who sends what: any
request may be on its way, and any process may take a reply that is for it, for
whichever call.  What the processes really do is added by `Application`.
-/

namespace EsalsaMpi

/-- The server, what is left of the operations on each communicator, the
requests and replies on their way and the tables of the processes; `handedOut`
records the numbers of the communicators created, in order. -/
structure Concurrent where
  server : Server.State
  work : Nat → List Server.Job
  requests : Pid → List Server.CommunicatorRequest
  replies : Pid → List Server.ReplyBody
  processes : Pid → Option Process
  handedOut : List Nat

namespace Concurrent

/-- A request sets out. -/
def request (s : Concurrent) (req : Server.CommunicatorRequest) : Concurrent :=
  { s with requests := Queues.push s.requests req.source [req] }

/-- The replies on their way after `ms` have been enqueued. -/
def enqueue (replies : Pid → List Server.ReplyBody) (ms : List Server.Reply) (pid : Pid) :
    List Server.ReplyBody :=
  replies pid ++ (ms.filter fun m => m.destination = pid).map (·.body)

/-- The process `pid` has the table of `p`, and `left` replies on their way. -/
def accept (s : Concurrent) (pid : Pid) (p : Process) (left : List Server.ReplyBody) :
    Concurrent :=
  { s with
    replies := Function.update s.replies pid left
    processes := Function.update s.processes pid (some p) }

/-- `free_communicator` at the process `pid`. -/
def freeCommunicator (s : Concurrent) (pid : Pid) (p : Process) (handle : Nat) : Concurrent :=
  { s with
    processes := Function.update s.processes pid
      (some { p with comms := Function.update p.comms handle none }) }

variable (cfg : Server.Config) (order : Server.HashOrder)

/-- A receiver thread of the server delivers `req`, which leaves `left` requests
of the same process on their way. -/
def deliver (s : Concurrent) (req : Server.CommunicatorRequest)
    (left : List Server.CommunicatorRequest) : Concurrent :=
  let admitted := Server.admitRequest cfg order s.server req
  { s with
    server := admitted.1
    work := Function.update s.work req.communicator admitted.2
    requests := Function.update s.requests req.source left }

/-- The number of the communicator that a job creates, if any. -/
def created (server : Server.State) (job : Server.Job) : List Nat :=
  match job with
  | .create pids _ => ((Server.createCommunicator cfg server pids).map (·.2.number)).toList
  | _ => []

/-- The thread in the monitor of communicator `n` does its next job, before
`jobs`.  An exception ends the operation. -/
def perform (s : Concurrent) (n : Nat) (job : Server.Job) (jobs : List Server.Job) :
    Concurrent :=
  match job.run cfg s.server with
  | none => { s with work := Function.update s.work n [] }
  | some (server, ms) =>
    { s with
      server := server
      work := Function.update s.work n jobs
      replies := enqueue s.replies ms
      handedOut := s.handedOut ++ created cfg s.server job }

/-- The steps of server and processes.  A thread waits for the monitor of a
communicator as long as there is work left on it. -/
inductive Step : Concurrent → Concurrent → Prop where
  | request {s : Concurrent} (req : Server.CommunicatorRequest)
      (hgroup : ∀ pids, req.toGroup = some pids → pids.Nodup) : Step s (s.request req)
  | deliver {s : Concurrent} {req : Server.CommunicatorRequest}
      {before after : List Server.CommunicatorRequest}
      (hrequest : s.requests req.source = before ++ req :: after)
      (hmonitor : s.work req.communicator = []) :
      Step s (s.deliver cfg order req (before ++ after))
  | perform {s : Concurrent} {n : Nat} {job : Server.Job} {jobs : List Server.Job}
      (hwork : s.work n = job :: jobs) : Step s (s.perform cfg n job jobs)
  | accept {s : Concurrent} {pid : Pid} {p : Process} {body : Server.ReplyBody}
      {before after : List Server.ReplyBody} (c : Communicator) (op : Server.Operation)
      (comm : Option (List Pid)) (hp : s.processes pid = some p)
      (hreply : s.replies pid = before ++ body :: after) :
      Step s (s.accept pid ((p.conclude c op body comm).getD p) (before ++ after))
  | free {s : Concurrent} {pid : Pid} {p : Process} (handle : Nat)
      (hp : s.processes pid = some p) : Step s (s.freeCommunicator pid p handle)

/-- The start of a run, at a server with its world. -/
def start (server : Server.State) : Concurrent where
  server := server
  work := fun _ => []
  requests := fun _ => []
  replies := fun _ => []
  processes := (System.start cfg server).processes
  handedOut := []

/-- The states of a run. -/
def Reachable (s : Concurrent) : Prop :=
  ∃ server, Server.initCommWorld cfg = some server ∧
    Relation.ReflTransGen (Step cfg order) (start cfg server) s

end Concurrent

end EsalsaMpi
