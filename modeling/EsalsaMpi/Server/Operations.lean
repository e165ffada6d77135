import EsalsaMpi.Server.Communicator
import Mathlib.Data.List.Sort

/-!
# The operations of the server

The requests that members send on a communicator, the operation the server
performs once it holds one request of every member, and the replies it sends.
`deliverRequest` follows `Server.java` and `Communicator.java`: an operation
is carried out by the thread that delivers the last request, under the monitor
of the communicator, so it is one step here.

An exception inside an operation is caught by `deliverRequest`.  What the
operation has done until then stays, which is why the functions below return
the state and the replies they have reached.
-/

namespace EsalsaMpi

namespace Server

/-- The configuration file of a run.  Gateways are numbered after the application processes of
their cluster, and both count towards the documented maximum of a cluster.  In `size_le` this is
stricter than the constructor of `Server`, which counts the application processes alone: of the
files that it accepts, the ones left out are those in which two processes of a cluster have one
PID (`Startup.Configuration.pidsIdentify_iff`). -/
structure Config where
  applicationSizes : List Nat
  numberOfGatewaysPerCluster : Nat
  one_lt_clusters : 1 < applicationSizes.length
  clusters_lt : applicationSizes.length < maxClusters
  gateways_pos : 0 < numberOfGatewaysPerCluster
  size_pos : ∀ size ∈ applicationSizes, 0 < size
  size_le : ∀ size ∈ applicationSizes,
    size + numberOfGatewaysPerCluster ≤ maxProcessesPerCluster

def Config.numberOfClusters (cfg : Config) : Nat := cfg.applicationSizes.length

/-- `HashMap<Integer, …>` and `HashSet<Integer>` are iterated in an order that
Java leaves open: `keys` for a map whose keys were put in the given order,
`elements` for the elements that stay when some are removed. -/
structure HashOrder where
  keys : List Int → List Int
  perm_keys : ∀ l, (keys l).Perm l
  elements : List Pid → List Pid
  perm_elements : ∀ l, (elements l).Perm l

/-- The order in which the elements were put. -/
def HashOrder.insertion : HashOrder where
  keys := id
  perm_keys := List.Perm.refl
  elements := id
  perm_elements := List.Perm.refl

/-- What a request asks for. -/
inductive Operation where
  | split (color key : Int)
  | group (pids : List Pid)
  | dup
  | free
  | finalize
deriving DecidableEq, Repr

/-- The opcodes of `Protocol.java`. -/
def Operation.opcode : Operation → Nat
  | .split _ _ => 51
  | .group _ => 53
  | .dup => 55
  | .free => 57
  | .finalize => 58

/-- `CommunicatorRequest` with its subclasses.  Clients send the handle of a
communicator and their rank in it, neither of which is negative. -/
structure CommunicatorRequest where
  source : Pid
  communicator : Nat
  rank : Nat
  operation : Operation
deriving DecidableEq, Repr

/-- The fields that `SplitReply` and `GroupReply` have in common. -/
structure CommInfo where
  newComm : Int
  rank : Int
  size : Int
  clusterCount : Int
  flags : Int
  tables : Tables
deriving DecidableEq, Repr

/-- The tables of a reply without a communicator: null arrays. -/
def noTables : Tables := ⟨[], [], [], [], [], []⟩

/-- `GroupReply.TYPE_ACTIVE`, `TYPE_SEPERATIST` and `TYPE_IDLE`. -/
inductive GroupType where
  | active
  | seperatist
  | idle
deriving DecidableEq, Repr

/-- The contents of a reply, by its opcode. -/
inductive ReplyBody where
  | split (info : CommInfo) (color key : Int)
  | group (info : CommInfo) (type : GroupType)
  | dup (newComm : Int)
  | finalize
deriving DecidableEq, Repr

/-- A reply and the process it is for. -/
structure Reply where
  destination : Pid
  body : ReplyBody
deriving DecidableEq, Repr

/-- The simplified `SplitReply` for a process that does not participate. -/
def simplifiedSplitReply (destination : Pid) : Reply :=
  ⟨destination, .split ⟨-1, 0, 0, 0, 0, noTables⟩ (-1) 0⟩

/-- The `GroupReply` for a process outside the group. -/
def outsiderGroupReply (destination : Pid) (overlap : Bool) : Reply :=
  ⟨destination, .group ⟨-1, -1, -1, -1, -1, noTables⟩
    (if overlap then .seperatist else .idle)⟩

/-- `Communicator`: its tables, the slots for the requests of its members and
the number of slots in use. -/
structure Communicator where
  number : Nat
  tables : Tables
  messages : List (Option CommunicatorRequest)
  participants : Nat
deriving DecidableEq, Repr

/-- The number of members. -/
def Communicator.size (c : Communicator) : Nat := c.tables.members.length

/-- A communicator without requests. -/
def Communicator.fresh (number : Nat) (t : Tables) : Communicator where
  number := number
  tables := t
  messages := List.replicate t.members.length none
  participants := 0

/-- The server's list of communicators. -/
abbrev State := List (Option Communicator)

/-- `COMM_FLAG_LOCAL`, and `COMM_FLAG_REMOTE` next to it. -/
def commFlagLocal : Nat := 1

def commFlagRemote : Nat := 2

/-- `Communicator.generateFlags`. -/
def generateFlags : List Pid → Nat
  | [] => 0
  | pid :: rest =>
    if rest.all fun other => getClusterRank pid == getClusterRank other then
      commFlagLocal
    else
      commFlagLocal ||| commFlagRemote

/-- `Message` cast to `SplitRequest`. -/
structure SplitRequest where
  source : Pid
  rank : Nat
  color : Int
  key : Int
deriving DecidableEq, Repr

def CommunicatorRequest.toSplit (m : CommunicatorRequest) : Option SplitRequest :=
  match m.operation with
  | .split color key => some ⟨m.source, m.rank, color, key⟩
  | _ => none

/-- `Message` cast to `GroupRequest`, reduced to its `pids`. -/
def CommunicatorRequest.toGroup (m : CommunicatorRequest) : Option (List Pid) :=
  match m.operation with
  | .group pids => some pids
  | _ => none

/-- `ColorComparator`, as the relation "not after". -/
def SplitRequest.Le (o1 o2 : SplitRequest) : Prop :=
  o1.key < o2.key ∨ (o1.key = o2.key ∧ o1.rank ≤ o2.rank)

instance : DecidableRel SplitRequest.Le := fun o1 o2 =>
  inferInstanceAs (Decidable (o1.key < o2.key ∨ (o1.key = o2.key ∧ o1.rank ≤ o2.rank)))

section

variable (cfg : Config) (order : HashOrder)

/-- `Communicator.enqueueReply` and `Server.enqueueReply` for a row of
replies: one for a cluster the server does not know is dropped. -/
def enqueueReplies (replies : List Reply) : List Reply :=
  replies.filter fun m => getClusterRank m.destination < cfg.numberOfClusters

/-- `Server.createCommunicator`; `none` when the constructor throws. -/
def createCommunicator (s : State) (pids : List Pid) :
    Option (State × Communicator) :=
  (tablesOf cfg.numberOfClusters pids).map fun t =>
    let com := Communicator.fresh s.length t
    (s ++ [some com], com)

/-- What a reply tells the member with rank `j` of a new communicator. -/
def Communicator.infoFor (com : Communicator) (j : Nat) : CommInfo where
  newComm := com.number
  rank := j
  size := com.size
  clusterCount := com.tables.coordinators.length
  flags := generateFlags com.tables.members
  tables := com.tables

/-- The requests of one color, in the order of their slots. -/
def ofColor (requests : List SplitRequest) (color : Int) : List SplitRequest :=
  requests.filter fun m => m.color = color

/-- The PIDs of the members that asked for `color`, ordered by key and then by
rank.  The rank of a stored request is in bounds. -/
def colorPids (members : List Pid) (requests : List SplitRequest) (color : Int) :
    List Pid :=
  ((ofColor requests color).insertionSort SplitRequest.Le).map fun m =>
    members.getD m.rank 0

/-- The replies to the participants of the new communicator `com`. -/
def splitReplies (com : Communicator) (color : Int) : List Reply :=
  com.tables.members.mapIdx fun j pid =>
    ⟨pid, .split (com.infoFor j) color (com.tables.localRanks.getD j 0)⟩

/-- The loop of `processSplit` over the colors. -/
def splitColors (members : List Pid) (requests : List SplitRequest) :
    State → List Int → State × List Reply
  | s, [] => (s, [])
  | s, color :: colors =>
    if 0 ≤ color then
      match createCommunicator cfg s (colorPids members requests color) with
      | none => (s, [])
      | some (s', com) =>
        let rest := splitColors members requests s' colors
        (rest.1, enqueueReplies cfg (splitReplies com color) ++ rest.2)
    else
      let rest := splitColors members requests s colors
      (rest.1,
        enqueueReplies cfg
          ((ofColor requests color).map fun m => simplifiedSplitReply m.source) ++ rest.2)

/-- `Communicator.processSplit`. -/
def processSplit (s : State) (c : Communicator) (requests : List SplitRequest) :
    State × List Reply :=
  splitColors cfg c.tables.members requests s
    (order.keys (requests.map (·.color)).eraseDups)

/-- `Communicator.processGroup`. -/
def processGroup (s : State) (c : Communicator) (groups : List (List Pid)) :
    State × List Reply :=
  match groups with
  | [] => (s, [])
  | group :: others =>
    if others.all fun other => group == other then
      match createCommunicator cfg s group with
      | none => (s, [])
      | some (s', com) =>
        let activeClusters := group.map getClusterRank
        let participants := group.mapIdx fun j pid =>
          ⟨pid, .group (com.infoFor j) .active⟩
        let outsiders := (order.elements
            (c.tables.members.eraseDups.filter fun pid => pid ∉ group)).map fun pid =>
          outsiderGroupReply pid (getClusterRank pid ∈ activeClusters)
        (s', enqueueReplies cfg (participants ++ outsiders))
    else
      (s, [])

/-- `Communicator.processDup`. -/
def processDup (s : State) (c : Communicator) : State × List Reply :=
  match createCommunicator cfg s c.tables.members with
  | none => (s, [])
  | some (s', com) =>
    (s', enqueueReplies cfg (c.tables.members.map fun pid => ⟨pid, .dup com.number⟩))

/-- `Server.freeCommunicator`. -/
def freeCommunicator (s : State) (number : Nat) : State := s.set number none

/-- `Communicator.processFree`. -/
def processFree (s : State) (c : Communicator) : State × List Reply :=
  (freeCommunicator s c.number, [])

/-- The gateways of one cluster, the master gateway last. -/
def gatewayPids (cluster applicationSize : Nat) : List Pid :=
  (List.range cfg.numberOfGatewaysPerCluster).map fun j =>
    setPid cluster (applicationSize + j)

/-- `Communicator.processFinalize`. -/
def processFinalize (s : State) (c : Communicator) : State × List Reply :=
  if c.number = 0 then
    let gateways := (cfg.applicationSizes.mapIdx fun i size => gatewayPids cfg i size).flatten
    (freeCommunicator s 0,
      enqueueReplies cfg ((c.tables.members ++ gateways).map fun pid => ⟨pid, .finalize⟩))
  else
    (s, [])

/-- `Communicator.processRequest`, for the requests in the slots. -/
def processRequest (s : State) (c : Communicator)
    (requests : List CommunicatorRequest) : State × List Reply :=
  match requests with
  | [] => (s, [])
  | first :: others =>
    if others.all fun m => m.operation.opcode == first.operation.opcode then
      match first.operation with
      | .split _ _ => processSplit cfg order s c (requests.filterMap (·.toSplit))
      | .group _ => processGroup cfg order s c (requests.filterMap (·.toGroup))
      | .dup => processDup cfg s c
      | .free => processFree s c
      | .finalize => processFinalize cfg s c
    else
      (s, [])

/-- How the delivery of a request ends. -/
inductive Outcome where
  | unknownCommunicator
  | unknownRank
  | duplicate
  | stored
  | executed (requests : List CommunicatorRequest) (replies : List Reply)
deriving DecidableEq, Repr

/-- A request is stored in the slot of its rank. -/
def Communicator.store (c : Communicator) (req : CommunicatorRequest) : Communicator :=
  { c with
    messages := c.messages.set req.rank (some req)
    participants := c.participants + 1 }

/-- The administration is reset after an operation. -/
def Communicator.reset (c : Communicator) : Communicator :=
  { c with messages := List.replicate c.size none, participants := 0 }

/-- The requests in the slots. -/
def Communicator.requests (c : Communicator) : List CommunicatorRequest :=
  c.messages.filterMap id

/-- `Communicator.deliverRequest` on the communicator `c` of the server.  The
operation may free the communicator, whose slots then go with it, so they are
reset before it here. -/
def Communicator.deliverRequest (s : State) (c : Communicator)
    (req : CommunicatorRequest) : State × Outcome :=
  match c.messages[req.rank]? with
  | none => (s, .unknownRank)
  | some (some _) => (s, .duplicate)
  | some none =>
    let c' := c.store req
    if c'.participants = c.size then
      let result :=
        processRequest cfg order (s.set c.number (some c'.reset)) c' c'.requests
      (result.1, .executed c'.requests result.2)
    else
      (s.set c.number (some c'), .stored)

/-- `Server.deliverRequest`. -/
def deliverRequest (s : State) (req : CommunicatorRequest) : State × Outcome :=
  match s[req.communicator]? with
  | some (some c) => c.deliverRequest cfg order s req
  | _ => (s, .unknownCommunicator)

end

end Server

end EsalsaMpi
