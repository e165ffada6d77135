import EsalsaMpi.Backend.Communicator
import EsalsaMpi.Server.World

/-!
# How a client gets its communicators

`init_communicators` builds the world from the sizes of the clusters, and
`EMPI_Comm_split`, `EMPI_Comm_create` and `EMPI_Comm_dup` combine a reply of the
server with a collective call of the cluster's own MPI library.  A communicator
of that library is its group, the PIDs of its members in rank order; what it
does with groups is documented behaviour:

* a split orders the processes of one color by key and then by old rank;
* including ranks in a group and creating a communicator keep the listed order;
* a dup keeps the ranks.

Each of the three calls is cut at the point where it has its reply.  What it
sends before is `splitRequest`, `createRequest` and `dupRequest`; the rest is
`finishSplit`, `finishCreate` and `finishDup`, where `none` is a process that
has ended in `ERROR` or `FATAL`.
-/

namespace EsalsaMpi

/-- `EMPI_UNDEFINED`. -/
def empiUndefined : Int := -32766

/-- `MPI_UNDEFINED` of the cluster's library, from which `EMPI_UNDEFINED` is
borrowed. -/
def mpiUndefined : Int := empiUndefined

/-- `COMM_FLAG_LOCAL`, `COMM_FLAG_REMOTE`, `COMM_FLAG_WORLD` and
`COMM_FLAG_SELF`. -/
def commFlagLocal : Nat := 1

def commFlagRemote : Nat := 2

def commFlagWorld : Nat := 4

def commFlagSelf : Nat := 8

section Pmpi

/-- The order of `PMPI_Comm_split` inside a color: by key, then by the rank in
the old communicator. -/
def SplitLe (comm : List Pid) (key : Pid → Int) (p q : Pid) : Prop :=
  key p < key q ∨ (key p = key q ∧ comm.idxOf p ≤ comm.idxOf q)

instance (comm : List Pid) (key : Pid → Int) : DecidableRel (SplitLe comm key) :=
  fun p q => inferInstanceAs
    (Decidable (key p < key q ∨ (key p = key q ∧ comm.idxOf p ≤ comm.idxOf q)))

/-- `PMPI_Comm_split` at the process `me`, when every process `q` passes
`args q` as its color and key.  `none` is `MPI_COMM_NULL`. -/
def pmpiCommSplit (comm : List Pid) (args : Pid → Int × Int) (me : Pid) :
    Option (List Pid) :=
  if (args me).1 = mpiUndefined then
    none
  else
    some ((comm.filter fun q => (args q).1 = (args me).1).insertionSort
      (SplitLe comm fun q => (args q).2))

/-- `PMPI_Group_incl`; `none` is an error. -/
def pmpiGroupIncl (group : List Pid) (ranks : List Nat) : Option (List Pid) :=
  ranks.mapM fun r => group[r]?

/-- The members of a list are looked at, not all PIDs. -/
instance (priority := 2000) decidableForallMem (l : List Pid) (p : Pid → Prop)
    [DecidablePred p] : Decidable (∀ q ∈ l, p q) :=
  List.decidableBAll p l

/-- `PMPI_Comm_create` at the process `me`.  The outer `none` is an error, the
inner one `MPI_COMM_NULL`. -/
def pmpiCommCreate (comm group : List Pid) (me : Pid) : Option (Option (List Pid)) :=
  if ∀ q ∈ group, q ∈ comm then
    some (if me ∈ group then some group else none)
  else
    none

/-- `PMPI_Comm_dup`. -/
def pmpiCommDup (comm : List Pid) : List Pid := comm

end Pmpi

/-- An application process: `my_pid` and the table `comms`. -/
structure Process where
  pid : Pid
  comms : Nat → Option Communicator

namespace Process

/-- `cluster_rank` of the process. -/
def clusterRank (p : Process) : Nat := getClusterRank p.pid

/-- `add_communicator`.  The caller fills in every field of `c` but the handle
and the coordinator. -/
def addCommunicator (p : Process) (handle : Int) (initial : Bool) (c : Communicator) :
    Option Process :=
  if handle < 0 ∨ (maxCommunicators : Int) ≤ handle then
    none
  else if initial = false ∧ handle < 3 then
    none
  else if (p.comms handle.toNat).isSome then
    none
  else
    let c : Communicator :=
      { c with
        handle := handle.toNat
        myCoordinator := findCoordinator p.clusterRank c.clusterCount c.tables }
    some { p with comms := fun h => if h = handle.toNat then some c else p.comms h }

end Process

/-- `cluster_offsets`, one entry more than there are clusters. -/
def clusterOffsets (clusterSizes : List Nat) : List Nat :=
  clusterSizes.scanl (· + ·) 0

/-- The loop of `init_communicators` over the members of the world: `n` members
to go, the next of which has rank `i`.  It yields cluster and process rank. -/
def fillWorld (offsets : List Nat) : Nat → Nat → Nat → Nat → List (Nat × Nat)
  | 0, _, _, _ => []
  | n + 1, i, cluster, process =>
    if offsets.getD (cluster + 1) 0 ≤ i then
      (cluster + 1, 0) :: fillWorld offsets n (i + 1) (cluster + 1) 1
    else
      (cluster, process) :: fillWorld offsets n (i + 1) cluster (process + 1)

/-- `COMM_WORLD` of the process `rank` in cluster `clusterRank`. -/
def worldCommunicator (clusterSizes : List Nat) (clusterRank rank : Nat) : Communicator :=
  let offsets := clusterOffsets clusterSizes
  let globalCount := offsets.getD clusterSizes.length 0
  let rows := fillWorld offsets globalCount 0 0 0
  let size := clusterSizes.getD clusterRank 0
  { handle := 0
    flags := commFlagWorld ||| commFlagLocal |||
      (if 1 < clusterSizes.length then commFlagRemote else 0)
    comm := (List.range size).map (setPid clusterRank)
    localRank := rank
    localSize := size
    globalRank := offsets.getD clusterRank 0 + rank
    globalSize := globalCount
    myCoordinator := none
    clusterCount := clusterSizes.length
    tables :=
      { members := rows.map fun row => setPid row.1 row.2
        coordinators := (List.range clusterSizes.length).map fun i => offsets.getD i 0
        clusterSizes := clusterSizes
        clusterRanks := List.range clusterSizes.length
        memberClusterIndex := rows.map (·.1)
        localRanks := rows.map (·.2) } }

/-- `COMM_SELF`, which shares its table of cluster ranks with the world. -/
def selfCommunicator (clusterSizes : List Nat) (pid : Pid) : Communicator where
  handle := 1
  flags := commFlagSelf ||| commFlagLocal
  comm := [pid]
  localRank := 0
  localSize := 1
  globalRank := 0
  globalSize := 1
  myCoordinator := none
  clusterCount := 1
  tables :=
    { members := [pid]
      coordinators := [0]
      clusterSizes := [1]
      clusterRanks := List.range clusterSizes.length
      memberClusterIndex := [0]
      localRanks := [0] }

/-- `COMM_NULL`. -/
def nullCommunicator : Communicator where
  handle := 2
  flags := 0
  comm := []
  localRank := 0
  localSize := 0
  globalRank := 0
  globalSize := 0
  myCoordinator := none
  clusterCount := 0
  tables := Server.noTables

/-- `init_communicators`. -/
def initCommunicators (clusterSizes : List Nat) (clusterRank rank : Nat) : Option Process :=
  let pid := setPid clusterRank rank
  let p : Process := ⟨pid, fun _ => none⟩
  (p.addCommunicator 0 true (worldCommunicator clusterSizes clusterRank rank)).bind fun p =>
    (p.addCommunicator 1 true (selfCommunicator clusterSizes pid)).bind fun p =>
      p.addCommunicator 2 true nullCommunicator

/-- The color and the key that `EMPI_Comm_split` sends to the server. -/
def splitColorKey (color key : Int) : Int × Int :=
  if color = mpiUndefined then (-1, -1) else (color, key)

/-- The color and the key that `EMPI_Comm_split` passes to the local split,
from those in the reply. -/
def localColorKey (color key : Int) : Int × Int :=
  if color < 0 then (empiUndefined, 0) else (color, key)

namespace Process

/-- `messaging_comm_split_send`. -/
def splitRequest (p : Process) (c : Communicator) (color key : Int) :
    Server.CommunicatorRequest :=
  ⟨p.pid, c.handle, c.globalRank,
    .split (splitColorKey color key).1 (splitColorKey color key).2⟩

/-- `messaging_comm_create_send`. -/
def createRequest (p : Process) (c : Communicator) (group : List Pid) :
    Server.CommunicatorRequest :=
  ⟨p.pid, c.handle, c.globalRank, .group group⟩

/-- `messaging_comm_dup_send`. -/
def dupRequest (p : Process) (c : Communicator) : Server.CommunicatorRequest :=
  ⟨p.pid, c.handle, c.globalRank, .dup⟩

/-- `create_communicator` for the new communicator of a reply, with the new
communicator `comm` of the local library. -/
def createCommunicator (p : Process) (info : Server.CommInfo) (comm : List Pid) :
    Option Process :=
  p.addCommunicator info.newComm false
    { handle := 0
      flags := info.flags.toNat
      comm := comm
      localRank := comm.idxOf p.pid
      localSize := comm.length
      globalRank := info.rank.toNat
      globalSize := info.size.toNat
      myCoordinator := none
      clusterCount := info.clusterCount.toNat
      tables := info.tables }

/-- `EMPI_Comm_split` from the reply on, when every process `q` of the local
communicator passes `args q` to the local split. -/
def finishSplit (p : Process) (c : Communicator) (info : Server.CommInfo)
    (args : Pid → Int × Int) : Option Process :=
  match pmpiCommSplit c.comm args p.pid with
  | none => some p
  | some comm => p.createCommunicator info comm

/-- `local_comm_create`. -/
def localCommCreate (p : Process) (c : Communicator) (group : List Pid) :
    Option (Option (List Pid)) :=
  let localMembers :=
    (group.filter fun q => getClusterRank q = p.clusterRank).map getProcessRank
  if localMembers.length = 0 then
    some none
  else
    (p.comms 0).bind fun world =>
      (pmpiGroupIncl world.comm localMembers).bind fun newGroup =>
        pmpiCommCreate c.comm newGroup p.pid

/-- `EMPI_Comm_create` from the reply on. -/
def finishCreate (p : Process) (c : Communicator) (group : List Pid)
    (info : Server.CommInfo) (type : Server.GroupType) : Option Process :=
  if type = .idle then
    some p
  else
    (p.localCommCreate c group).bind fun
      | none => some p
      | some comm => p.createCommunicator info comm

/-- `EMPI_Comm_dup` from the reply on. -/
def finishDup (p : Process) (c : Communicator) (newComm : Int) : Option Process :=
  p.addCommunicator newComm false { c with comm := pmpiCommDup c.comm }

end Process

end EsalsaMpi
