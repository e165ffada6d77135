import EsalsaMpi.Server.Delivery

/-!
# An operation as a row of jobs

Each cluster has a receiver thread of its own at the server.  The thread that
delivers the last request of a communicator carries out the operation under the
monitor of that communicator, while other threads work on other communicators.
What the threads share is the server's list of communicators, which
`createCommunicator` and `freeCommunicator` change under the monitor of the
server.  So an operation falls into jobs that run one after another, with the
jobs of other threads in between.

`admitRequest` is the delivery of a request up to the operation, and
`Communicator.jobs` the operation.  A thread that nobody interrupts does what
`deliverRequest` says: `processRequest_eq` and `deliverRequest_eq`.
-/

namespace EsalsaMpi

namespace Server

/-- A part of an operation that runs as a whole: creating a communicator and
the replies about it, replies without one, or clearing a slot. -/
inductive Job where
  | create (pids : List Pid) (replies : Communicator → List Reply)
  | tell (replies : List Reply)
  | free (number : Nat)

section

variable (cfg : Config) (order : HashOrder)

/-- A job of a thread; `none` when the constructor of `Communicator` throws. -/
def Job.run (s : State) : Job → Option (State × List Reply)
  | .create pids replies => (createCommunicator cfg s pids).map fun result =>
      (result.1, enqueueReplies cfg (replies result.2))
  | .tell replies => some (s, enqueueReplies cfg replies)
  | .free number => some (freeCommunicator s number, [])

/-- The jobs of a thread without others in between.  An exception leaves out
what is left. -/
def runJobs (s : State) : List Job → State × List Reply
  | [] => (s, [])
  | job :: jobs =>
    match job.run cfg s with
    | none => (s, [])
    | some (s', replies) =>
      let rest := runJobs s' jobs
      (rest.1, replies ++ rest.2)

namespace Communicator

/-- The job of `processSplit` for one color. -/
def colorJob (members : List Pid) (requests : List SplitRequest) (color : Int) : Job :=
  if 0 ≤ color then
    .create (colorPids members requests color) fun com => splitReplies com color
  else
    .tell ((ofColor requests color).map fun m => simplifiedSplitReply m.source)

/-- `processSplit`. -/
def splitJobs (c : Communicator) (requests : List SplitRequest) : List Job :=
  (order.keys (requests.map (·.color)).eraseDups).map (colorJob c.tables.members requests)

/-- The replies of `processGroup`: to the group, and to the other members. -/
def groupReplies (members group : List Pid) (com : Communicator) : List Reply :=
  (group.mapIdx fun j pid => ⟨pid, .group (com.infoFor j) .active⟩) ++
    (order.elements (members.eraseDups.filter fun pid => pid ∉ group)).map fun pid =>
      outsiderGroupReply pid (getClusterRank pid ∈ group.map getClusterRank)

/-- `processGroup`. -/
def groupJobs (c : Communicator) (groups : List (List Pid)) : List Job :=
  match groups with
  | [] => []
  | group :: others =>
    if others.all fun other => group == other then
      [.create group (groupReplies order c.tables.members group)]
    else
      []

/-- `processDup`. -/
def dupJobs (c : Communicator) : List Job :=
  [.create c.tables.members fun com => c.tables.members.map fun pid => ⟨pid, .dup com.number⟩]

/-- `processFinalize`. -/
def finalizeJobs (c : Communicator) : List Job :=
  if c.number = 0 then
    let gateways := (cfg.applicationSizes.mapIdx fun i size => gatewayPids cfg i size).flatten
    [.free 0, .tell ((c.tables.members ++ gateways).map fun pid => ⟨pid, .finalize⟩)]
  else
    []

/-- `processRequest`, for the requests in the slots. -/
def jobs (c : Communicator) (requests : List CommunicatorRequest) : List Job :=
  match requests with
  | [] => []
  | first :: others =>
    if others.all fun m => m.operation.opcode == first.operation.opcode then
      match first.operation with
      | .split _ _ => c.splitJobs order (requests.filterMap (·.toSplit))
      | .group _ => c.groupJobs order (requests.filterMap (·.toGroup))
      | .dup => c.dupJobs
      | .free => [.free c.number]
      | .finalize => c.finalizeJobs cfg
    else
      []

/-- `Communicator.deliverRequest` up to the operation, and the jobs of the
operation.  The slots are reset when it ends; nobody looks at them before that,
since the thread holds the monitor, so they are reset here. -/
def admitRequest (s : State) (c : Communicator) (req : CommunicatorRequest) :
    State × List Job :=
  match c.messages[req.rank]? with
  | none => (s, [])
  | some (some _) => (s, [])
  | some none =>
    let c' := c.store req
    if c'.participants = c.size then
      (s.set c.number (some c'.reset), c'.jobs cfg order c'.requests)
    else
      (s.set c.number (some c'), [])

end Communicator

/-- `Server.deliverRequest` up to the operation. -/
def admitRequest (s : State) (req : CommunicatorRequest) : State × List Job :=
  match s[req.communicator]? with
  | some (some c) => c.admitRequest cfg order s req
  | _ => (s, [])

variable {cfg order}

/-- The loop over the colors is its jobs. -/
theorem splitColors_eq_runJobs (members : List Pid) (requests : List SplitRequest)
    (s : State) (colors : List Int) :
    splitColors cfg members requests s colors =
      runJobs cfg s (colors.map (Communicator.colorJob members requests)) := by
  induction colors generalizing s with
  | nil => rfl
  | cons color colors ih =>
      rw [splitColors, List.map_cons, runJobs, Communicator.colorJob]
      split
      · rw [Job.run]
        cases createCommunicator cfg s (colorPids members requests color) with
        | none => rfl
        | some result => simp only [Option.map_some, ih]
      · simp only [Job.run, ih]

/-- A single job. -/
theorem runJobs_singleton (s : State) (job : Job) :
    runJobs cfg s [job] = (job.run cfg s).getD (s, []) := by
  rw [runJobs]
  cases job.run cfg s with
  | none => rfl
  | some result => simp [runJobs]

/-- **An operation is its jobs**, when no other thread comes in between. -/
theorem processRequest_eq (s : State) (c : Communicator) (requests : List CommunicatorRequest) :
    processRequest cfg order s c requests = runJobs cfg s (c.jobs cfg order requests) := by
  cases requests with
  | nil => rfl
  | cons first others =>
      rw [processRequest, Communicator.jobs]
      split
      · cases first.operation with
        | split color key => exact splitColors_eq_runJobs _ _ s _
        | group pids =>
            simp only
            cases (first :: others).filterMap (·.toGroup) with
            | nil => rfl
            | cons group groups =>
                simp only [processGroup, Communicator.groupJobs]
                split
                · rw [runJobs_singleton, Job.run]
                  cases createCommunicator cfg s group <;> rfl
                · rfl
        | dup =>
            simp only [processDup, Communicator.dupJobs, runJobs_singleton, Job.run]
            cases createCommunicator cfg s c.tables.members <;> rfl
        | free => rfl
        | finalize =>
            simp only [processFinalize, Communicator.finalizeJobs]
            split
            · simp [runJobs, Job.run]
            · rfl
      · rfl

/-- **A delivery is what it admits and its jobs**, when no other thread comes in
between. -/
theorem deliverRequest_eq (s : State) (req : CommunicatorRequest) :
    ((deliverRequest cfg order s req).1, (deliverRequest cfg order s req).2.replies) =
      runJobs cfg (admitRequest cfg order s req).1 (admitRequest cfg order s req).2 := by
  rw [deliverRequest, admitRequest]
  cases s[req.communicator]? with
  | none => rfl
  | some slot =>
      cases slot with
      | none => rfl
      | some c =>
          simp only [Communicator.deliverRequest, Communicator.admitRequest]
          cases c.messages[req.rank]? with
          | none => rfl
          | some message =>
              cases message with
              | some _ => rfl
              | none =>
                  simp only
                  split
                  · rw [processRequest_eq]
                    rfl
                  · rfl

/-- **What admitting a request does**: nothing, or another version of its
communicator, with the jobs of an operation if the slots are full. -/
theorem admitRequest_cases (s : State) (req : CommunicatorRequest) :
    (admitRequest cfg order s req = (s, [])) ∨
    ∃ c, s[req.communicator]? = some (some c) ∧ c.messages[req.rank]? = some none ∧
      ((c.participants + 1 ≠ c.size ∧
          admitRequest cfg order s req = (s.set c.number (some (c.store req)), [])) ∨
        (c.participants + 1 = c.size ∧
          admitRequest cfg order s req =
            (s.set c.number (some (c.store req).reset),
              (c.store req).jobs cfg order (c.store req).requests))) := by
  cases hlive : s[req.communicator]? with
  | none => exact Or.inl (by simp [admitRequest, hlive])
  | some slot =>
      cases slot with
      | none => exact Or.inl (by simp [admitRequest, hlive])
      | some c =>
          cases hmessage : c.messages[req.rank]? with
          | none => exact Or.inl (by simp [admitRequest, hlive, Communicator.admitRequest, hmessage])
          | some message =>
              cases message with
              | some _ =>
                  exact Or.inl
                    (by simp [admitRequest, hlive, Communicator.admitRequest, hmessage])
              | none =>
                  refine Or.inr ⟨c, rfl, hmessage, ?_⟩
                  have hstored : (c.store req).participants = c.participants + 1 := rfl
                  by_cases hfull : c.participants + 1 = c.size
                  · right
                    refine ⟨hfull, ?_⟩
                    simp [admitRequest, hlive, Communicator.admitRequest, hmessage, hstored, hfull]
                  · left
                    refine ⟨hfull, ?_⟩
                    simp [admitRequest, hlive, Communicator.admitRequest, hmessage, hstored, hfull]

end

end Server

end EsalsaMpi
