import EsalsaMpi.Server.Communicator

/-!
# The communicators of a client

A client keeps the tables of every communicator it is a member of in an
`s_communicator` (`communicator.h`).  The record here leaves out the message
queue, which the messaging modules keep beside it.  Memory from `malloc` that
nothing has written is `none`, and so is the outcome of a call that ends in
`FATAL` or `ERROR`: both write through a null pointer (`ERRORS_ARE_FATAL`),
which ends the process.

`get_global_rank` is the inverse of `get_local_rank` on the ranks of the
caller's cluster.  It searches the tables, so it is one exactly when the
tables describe the members: `translates_iff_grouped`.
-/

namespace EsalsaMpi

open FirstOccurrence

/-- `EMPI_ANY_SOURCE`. -/
def empiAnySource : Int := -1

/-- `EMPI_ANY_TAG`. -/
def empiAnyTag : Int := -1

/-- `EMPI_SUCCESS`. -/
def empiSuccess : Int := 0

/-- `EMPI_DATATYPE_NULL`. -/
def empiDatatypeNull : Int := 0

/-- `s_communicator`.  The communicator of the cluster's own MPI library is
its group: the PIDs of its members, in rank order. -/
structure Communicator where
  handle : Nat
  flags : Nat
  comm : List Pid
  localRank : Nat
  localSize : Nat
  globalRank : Nat
  globalSize : Nat
  myCoordinator : Option Nat
  clusterCount : Nat
  tables : Tables
deriving DecidableEq, Repr

/-- The loop of `add_communicator` that looks for the coordinator of the
caller's cluster: the last match wins, and without one the field is never
written. -/
def findCoordinator (clusterRank clusterCount : Nat) (t : Tables) : Option Nat :=
  if clusterCount = 0 then
    some 0
  else
    (List.range clusterCount).foldl
      (fun found i =>
        if t.clusterRanks[i]? = some clusterRank then t.coordinators[i]? else found)
      none

namespace Communicator

/-- `get_local_rank`. -/
def getLocalRank (c : Communicator) (rank : Int) : Option Nat :=
  if rank < 0 ∨ (c.globalSize : Int) ≤ rank then
    none
  else
    c.tables.localRanks[rank.toNat]?

/-- `get_global_rank`.  Its argument `cluster` only appears in the text of the
error. -/
def getGlobalRank (c : Communicator) (rank : Nat) : Option Nat :=
  c.tables.memberClusterIndex[c.globalRank]?.bind fun clusterIndex =>
    (List.range c.globalSize).find? fun i =>
      c.tables.memberClusterIndex[i]? == some clusterIndex &&
        c.tables.localRanks[i]? == some rank

/-- `get_pid`. -/
def getPid (c : Communicator) (rank : Nat) : Option Pid := c.tables.members[rank]?

/-- `get_cluster_rank`. -/
def getClusterRank (c : Communicator) (rank : Nat) : Option Nat :=
  (c.getPid rank).map EsalsaMpi.getClusterRank

/-- What `c` takes over from the reply that created it at the member with
rank `rank`. -/
structure Holds (c : Communicator) (t : Tables) (rank : Nat) : Prop where
  tables : c.tables = t
  globalRank : c.globalRank = rank
  globalSize : c.globalSize = t.members.length

end Communicator

/-- What the MPI library of the cluster reports on a message it has received.
The source is a rank in the communicator of that library; `count` is the
answer of `PMPI_Get_count`. -/
structure MpiStatus where
  source : Nat
  tag : Int
  error : Int
  cancelled : Bool
  count : Nat
deriving DecidableEq, Repr

/-- `s_status`. -/
structure Status where
  source : Int
  tag : Int
  error : Int
  count : Nat
  cancelled : Bool
  type : Int
deriving DecidableEq, Repr

/-- `set_status`. -/
def setStatus (source tag error type : Int) (count : Nat) (cancelled : Bool) :
    Status where
  source := source
  tag := tag
  error := error
  count := count
  cancelled := cancelled
  type := type

/-- `clear_status`. -/
def clearStatus : Status where
  source := empiAnySource
  tag := empiAnyTag
  error := empiSuccess
  count := 0
  cancelled := false
  type := empiDatatypeNull

/-- `mpi2tag`, for the library's value `mpiAnyTag` of `MPI_ANY_TAG`. -/
def mpi2tag (mpiAnyTag tag : Int) : Int :=
  if tag = mpiAnyTag then empiAnyTag else tag

/-- `translate_status`, for a caller that wants a status.  `none` for the
library's status is `MPI_STATUS_IGNORE`. -/
def translateStatus (mpiAnyTag : Int) (c : Communicator) (type : Int) :
    Option MpiStatus → Option Status
  | none => some clearStatus
  | some m =>
    (c.getGlobalRank m.source).map fun source =>
      setStatus source (mpi2tag mpiAnyTag m.tag) m.error type
        (if m.cancelled then 0 else m.count) m.cancelled

namespace Communicator

/-- The ranks of the caller's cluster survive the way to the local library and
back. -/
def Translates (c : Communicator) : Prop :=
  ∀ r < c.globalSize, c.getClusterRank r = c.getClusterRank c.globalRank →
    (c.getLocalRank r).bind c.getGlobalRank = some r

/-- A status of the local library names the rank it was received from. -/
def ReportsSender (c : Communicator) : Prop :=
  ∀ r < c.globalSize, c.getClusterRank r = c.getClusterRank c.globalRank →
    ∀ mpiAnyTag type m, c.getLocalRank r = some m.source →
      (translateStatus mpiAnyTag c type (some m)).map Status.source = some (r : Int)

/-- A client that translates ranks reports the senders of local messages. -/
theorem Translates.reportsSender {c : Communicator} (h : c.Translates) :
    c.ReportsSender := by
  intro r hr hcluster mpiAnyTag type m hsource
  have hglobal : c.getGlobalRank m.source = some r := by
    have := h r hr hcluster
    rwa [hsource, Option.bind_some] at this
  rw [translateStatus, hglobal]
  rfl

/-- `get_local_rank` reads the table at every rank of the communicator. -/
theorem getLocalRank_of_lt (c : Communicator) {r : Nat} (hr : r < c.globalSize) :
    c.getLocalRank r = c.tables.localRanks[r]? := by
  have hbounds : ¬ ((r : Int) < 0 ∨ (c.globalSize : Int) ≤ r) := by omega
  rw [getLocalRank, if_neg hbounds, Int.toNat_natCast]

end Communicator

namespace Server

variable {members : List Pid} {c : Communicator} {g : Nat}

/-- Two ranks of a client are in one cluster when the member list says so. -/
theorem getClusterRank_eq_iff (hc : c.Holds (tablesSpec members) g) (r s : Nat) :
    c.getClusterRank r = c.getClusterRank s ↔
      (clustersOf members)[r]? = (clustersOf members)[s]? := by
  simp [Communicator.getClusterRank, Communicator.getPid, hc.tables, tablesSpec,
    getElem?_clustersOf]

/-- A client of grouped members translates ranks: its search stops at no rank
but the one it started from. -/
theorem translates_of_grouped (hgrouped : Grouped (clustersOf members))
    (hc : c.Holds (tablesSpec members) g) : c.Translates := by
  intro r hr hcluster
  have hr' : r < (clustersOf members).length := by
    simpa [hc.globalSize, tablesSpec] using hr
  obtain ⟨k, hk⟩ : ∃ k, (clustersOf members)[r]? = some k :=
    ⟨_, List.getElem?_eq_getElem hr'⟩
  have hown : (clustersOf members)[c.globalRank]? = some k := by
    rw [← (getClusterRank_eq_iff hc r c.globalRank).mp hcluster, hk]
  obtain ⟨n, hn⟩ : ∃ n, (ranks (clustersOf members))[r]? = some n :=
    ⟨_, List.getElem?_eq_getElem (by simpa using hr')⟩
  have hlocal : c.tables.localRanks = ranks (clustersOf members) := by
    rw [hc.tables, tablesSpec]
  have hindex : ∀ i : Nat, c.tables.memberClusterIndex[i]? =
      (clustersOf members)[i]?.map fun k => (clustersOf members).eraseDups.idxOf k := by
    intro i
    rw [hc.tables, tablesSpec, (newests_eq_iff_grouped _).mpr hgrouped,
      List.getElem?_map]
  rw [c.getLocalRank_of_lt hr, hlocal, hn, Option.bind_some,
    Communicator.getGlobalRank, hindex, hown, Option.map_some, Option.bind_some,
    List.find?_range_eq_some]
  refine ⟨?_, List.mem_range.mpr hr, ?_⟩
  · simp [hindex, hk, hlocal, hn]
  · -- an earlier hit would be a member of the same cluster with the same rank
    intro i hir
    have hi : i < (clustersOf members).length := by omega
    obtain ⟨l, hl⟩ : ∃ l, (clustersOf members)[i]? = some l :=
      ⟨_, List.getElem?_eq_getElem hi⟩
    by_contra hhit
    have hmatch : (clustersOf members).eraseDups.idxOf l =
          (clustersOf members).eraseDups.idxOf k ∧
        (ranks (clustersOf members))[i]? = some n := by
      simpa [hindex, hlocal, hl] using hhit
    have hsame : l = k :=
      eq_of_idxOf_eraseDups_eq (List.mem_of_getElem? hl) hmatch.1
    have heq : i = r := by
      apply eq_of_getElem?_ranks_eq hi
      · rw [hl, hk, hsame]
      · rw [hmatch.2, hn]
    omega

/-- A client that translates ranks finds one index for all members of its
cluster. -/
theorem memberClusterIndex_of_translates (h : c.Translates) {r : Nat}
    (hr : r < c.globalSize)
    (hcluster : c.getClusterRank r = c.getClusterRank c.globalRank) :
    c.tables.memberClusterIndex[r]? = c.tables.memberClusterIndex[c.globalRank]? := by
  have hfound := h r hr hcluster
  obtain ⟨n, _, hglobal⟩ := Option.bind_eq_some_iff.mp hfound
  obtain ⟨index, hindex, hfind⟩ := Option.bind_eq_some_iff.mp hglobal
  have hhit := List.find?_some hfind
  simp only [Bool.and_eq_true, beq_iff_eq] at hhit
  rw [hhit.1, hindex]

/-- Only grouped members can all translate ranks: the newest cluster is
recorded for the first member of a cluster, hence for all of them. -/
theorem grouped_of_translates
    (h : ∀ (c : Communicator) (g : Nat), g < members.length →
      c.Holds (tablesSpec members) g → c.Translates) :
    Grouped (clustersOf members) := by
  rw [← newest_eq_idxOf_iff_grouped]
  intro i hi
  -- the first member of the cluster of `i`
  let first := (clustersOf members).idxOf (clustersOf members)[i]
  have hfirst : first < (clustersOf members).length :=
    List.idxOf_lt_length_of_mem (List.getElem_mem hi)
  have hkey : (clustersOf members)[first] = (clustersOf members)[i] :=
    List.getElem_idxOf hfirst
  let c : Communicator :=
    { handle := 0, flags := 0, comm := [], localRank := 0, localSize := 0
      globalRank := first, globalSize := members.length, myCoordinator := none
      clusterCount := 0, tables := tablesSpec members }
  have hc : c.Holds (tablesSpec members) first := ⟨rfl, rfl, rfl⟩
  have htranslates := h c first (by simpa using hfirst) hc
  have hsame := memberClusterIndex_of_translates htranslates
    (show i < c.globalSize by simpa using hi)
    ((getClusterRank_eq_iff hc i first).mpr (by
      rw [List.getElem?_eq_getElem hi, List.getElem?_eq_getElem hfirst, hkey]))
  have hnewest : newest ((clustersOf members).take (i + 1)) =
      newest ((clustersOf members).take (first + 1)) := by
    have hi' : i < members.length := by simpa using hi
    have hfirst' : first < members.length := by simpa using hfirst
    simpa [c, tablesSpec, newests, hi', hfirst', hi, hfirst] using hsame
  have hnew : (clustersOf members)[first] ∉ (clustersOf members).take first := by
    intro hmem
    rw [hkey, List.mem_take_iff_idxOf_lt (List.getElem_mem hi)] at hmem
    exact Nat.lt_irrefl _ hmem
  rw [hnewest, List.take_succ_eq_append_getElem hfirst, newest_concat_of_notMem hnew,
    ← List.take_succ_eq_append_getElem hfirst, idxOf_take_succ hfirst, hkey]

/-- **Ranks translate exactly on grouped members.** -/
theorem translates_iff_grouped (members : List Pid) :
    (∀ (c : Communicator) (g : Nat), g < members.length →
      c.Holds (tablesSpec members) g → c.Translates) ↔
      Grouped (clustersOf members) := by
  constructor
  · exact grouped_of_translates
  · intro hgrouped c g _ hc
    exact translates_of_grouped hgrouped hc

/-- The server builds tables that describe the members, and with them every
client translates its ranks and reports the senders of local messages. -/
def ServesTables (numberOfClusters : Nat) (members : List Pid) : Prop :=
  ∃ t, tablesOf numberOfClusters members = some t ∧ t.Describes ∧
    ∀ (c : Communicator) (g : Nat), g < members.length → c.Holds t g →
      c.Translates ∧ c.ReportsSender

/-- **What the tables of a communicator are worth.**  For distinct members of
the server's clusters, the tables describe the member list and serve every
client exactly when the members of each cluster are consecutive. -/
theorem servesTables_iff_grouped {numberOfClusters : Nat} {members : List Pid}
    (_hdistinct : members.Nodup)
    (hclusters : ∀ pid ∈ members, EsalsaMpi.getClusterRank pid < numberOfClusters) :
    ServesTables numberOfClusters members ↔ Grouped (clustersOf members) := by
  have hknown : ∀ k ∈ clustersOf members, k < numberOfClusters := by
    intro k hk
    obtain ⟨pid, hpid, rfl⟩ := List.mem_map.mp hk
    exact hclusters pid hpid
  have htables : tablesOf numberOfClusters members = some (tablesSpec members) := by
    rw [tablesOf_eq, if_pos hknown]
  constructor
  · rintro ⟨t, ht, hdescribes, _⟩
    rw [htables] at ht
    cases ht
    exact (describes_iff_grouped members).mp hdescribes
  · intro hgrouped
    refine ⟨tablesSpec members, htables, (describes_iff_grouped members).mpr hgrouped, ?_⟩
    intro c g _ hc
    have htranslates := translates_of_grouped hgrouped hc
    exact ⟨htranslates, htranslates.reportsSender⟩

/-- The tables serve clusters met in the order 1, 0. -/
theorem servesTables_reversed_clusters :
    ServesTables 2 [setPid 1 0, setPid 1 1, setPid 0 0] := by
  refine (servesTables_iff_grouped (by decide) ?_).mpr (by decide)
  intro pid hpid
  simp only [List.mem_cons, List.not_mem_nil, or_false] at hpid
  rcases hpid with rfl | rfl | rfl
  · decide
  · decide
  · decide

/-- A member of cluster 1 between two members of cluster 0: the last member is
filed under cluster 1, and the first one cannot translate its local rank. -/
theorem not_servesTables_interleaved :
    (tablesOf 2 [setPid 0 0, setPid 1 0, setPid 0 1]).map Tables.memberClusterIndex =
        some [0, 1, 1] ∧
      ¬ ServesTables 2 [setPid 0 0, setPid 1 0, setPid 0 1] := by
  constructor
  · decide
  · rintro ⟨t, ht, hdescribes, _⟩
    have hspec : t = tablesSpec [setPid 0 0, setPid 1 0, setPid 0 1] := by
      rw [tablesOf_eq, if_pos (by decide)] at ht
      exact (Option.some.inj ht).symm
    rw [hspec, describes_iff_grouped] at hdescribes
    revert hdescribes
    decide

end Server

end EsalsaMpi
