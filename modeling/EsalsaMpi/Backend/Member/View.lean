import EsalsaMpi.Backend.Barrier.Members
import EsalsaMpi.Backend.Member.Program
import EsalsaMpi.Library.Choreography

/-!
# What a member knows of a communicator

In every run, a member of a communicator knows its rank, the clusters of the
others, and the ranks that the library of its cluster gives to those of its own
cluster (`View`).
-/

namespace EsalsaMpi

open ProcessNetwork FirstOccurrence

/-- The cluster of the member with rank `i`. -/
def clusterAt (members : List Pid) (i : Nat) : Nat := (clustersOf members).getD i 0

/-- The ranks of the cluster of rank `r`. -/
def localsOf (members : List Pid) (r : Nat) : List Nat :=
  (List.range members.length).filter fun i => clusterAt members i = clusterAt members r

/-- The coordinator of the cluster of rank `r`. -/
def coordinatorFor (members : List Pid) (r : Nat) : Nat :=
  coordinatorOf members (clusterAt members r)

/-- The process `p` with rank `r` knows the communicator `n` as `c`. -/
structure View (members : List Pid) (n r : Nat) (p : Process) (c : Communicator) : Prop where
  nodup : members.Nodup
  rank : members[r]? = some p.pid
  globalRank : c.globalRank = r
  mirrors : Mirrors p.pid n members c
  commIsLocal : c.commIsLocal = true ↔ OneCluster members

theorem clusterAt_of_getElem? {members : List Pid} {i : Nat} {pid : Pid}
    (h : members[i]? = some pid) : clusterAt members i = getClusterRank pid := by
  rw [clusterAt, List.getD_eq_getElem?_getD, getElem?_clustersOf, h]
  rfl

theorem mem_localsOf {members : List Pid} {i r : Nat} :
    i ∈ localsOf members r ↔ i < members.length ∧ clusterAt members i = clusterAt members r := by
  simp [localsOf]

theorem nodup_localsOf (members : List Pid) (r : Nat) : (localsOf members r).Nodup :=
  List.nodup_range.filter _

/-- One rank of a cluster. -/
theorem filter_localsOf_eq {members : List Pid} {i r : Nat} (hi : i ∈ localsOf members r) :
    (localsOf members r).filter (· = i) = [i] := by
  rw [List.filter_eq, List.count_eq_one_of_mem (nodup_localsOf members r) hi]
  rfl

theorem filter_localsOf (members : List Pid) (r : Nat) (q : Nat → Prop) [DecidablePred q] :
    (localsOf members r).filter q = (List.range members.length).filter fun i =>
      clusterAt members i = clusterAt members r ∧ q i := by
  rw [localsOf, List.filter_filter]
  apply List.filter_congr
  intro i _
  simp [Bool.and_comm]

/-- The ranks of some members, in rank order. -/
theorem map_idxOf_filter {members : List Pid} (hnodup : members.Nodup) (q : Pid → Bool) :
    (members.filter q).map members.idxOf =
      (List.range members.length).filter fun i => q (members.getD i 0) := by
  have hself : members = (List.range members.length).map fun i => members.getD i 0 := by
    apply List.ext_getElem (by simp)
    intro i hi _
    simp [hi]
  have hfilter : members.filter q = ((List.range members.length).filter fun i =>
      q (members.getD i 0)).map fun i => members.getD i 0 := by
    conv_lhs => rw [hself, List.filter_map]
    rfl
  rw [hfilter, List.map_map]
  refine (List.map_congr_left ?_).trans (List.map_id _)
  intro i hi
  have hlt := List.mem_range.mp (List.mem_of_mem_filter hi)
  rw [Function.comp_apply, List.getD_eq_getElem _ _ hlt, hnodup.idxOf_getElem _ hlt]
  rfl

namespace View

variable {members : List Pid} {n r i : Nat} {p : Process} {c : Communicator}

theorem rank_lt (h : View members n r p c) : r < members.length :=
  (List.getElem?_eq_some_iff.mp h.rank).1

theorem clusterRank (h : View members n r p c) : p.clusterRank = clusterAt members r :=
  (clusterAt_of_getElem? h.rank).symm

theorem getPid (h : View members n r p c) (i : Nat) : c.getPid i = members[i]? := by
  rw [Communicator.getPid, h.mirrors.tables]
  rfl

theorem rankIsLocal_eq (h : View members n r p c) (hi : i < members.length) :
    rankIsLocal p c i = decide (clusterAt members i = clusterAt members r) := by
  rw [rankIsLocal, Communicator.getClusterRank, h.getPid, h.clusterRank,
    List.getElem?_eq_getElem hi, clusterAt_of_getElem? (List.getElem?_eq_getElem hi)]
  exact Bool.eq_iff_iff.mpr (by simp)

/-- **The processes of the library's communicator** are those of the own cluster, in
rank order. -/
theorem peers_eq (h : View members n r p c) : c.peers = localsOf members r := by
  rw [Communicator.peers, h.mirrors.comm, h.mirrors.tables]
  show (clusterMembers p.pid members).map members.idxOf = _
  rw [clusterMembers, map_idxOf_filter h.nodup, localsOf]
  apply List.filter_congr
  intro i hi
  have hlt := List.mem_range.mp hi
  rw [clusterAt_of_getElem? h.rank, clusterAt_of_getElem? (List.getElem?_eq_getElem hlt),
    List.getD_eq_getElem _ _ hlt]

/-- **A rank of the own cluster** is found by its rank in the library. -/
theorem exists_localRank (h : View members n r p c) (hi : i ∈ localsOf members r) :
    ∃ k, c.getLocalRank i = some k ∧ c.peers[k]? = some i := by
  obtain ⟨hlt, hcluster⟩ := mem_localsOf.mp hi
  have hpid := List.getElem?_eq_getElem hlt
  have hsame : clusterMembers members[i] members = clusterMembers p.pid members := by
    rw [clusterMembers, clusterMembers, ← clusterAt_of_getElem? hpid, hcluster,
      clusterAt_of_getElem? h.rank]
  have hlocal := localRanks_eq_idxOf h.nodup hpid
  rw [hsame] at hlocal
  refine ⟨(clusterMembers p.pid members).idxOf members[i], ?_, ?_⟩
  · rw [c.getLocalRank_of_lt (by rw [h.mirrors.globalSize]; exact hlt), h.mirrors.tables]
    exact hlocal
  · have hmem : members[i] ∈ clusterMembers p.pid members := by
      rw [← hsame]
      exact List.mem_filter.mpr ⟨List.getElem_mem hlt, decide_eq_true rfl⟩
    have hidx := List.idxOf_lt_length_of_mem hmem
    rw [Communicator.peers, h.mirrors.comm, List.getElem?_map, List.getElem?_eq_getElem hidx,
      List.getElem_idxOf hidx, h.mirrors.tables]
    exact congrArg some (h.nodup.idxOf_getElem _ hlt)

/-- The library's rank of the process itself. -/
theorem peers_localRank (h : View members n r p c) : c.peers[c.localRank]? = some r := by
  have hmem : p.pid ∈ clusterMembers p.pid members :=
    List.mem_filter.mpr ⟨List.mem_of_getElem? h.rank, decide_eq_true rfl⟩
  have hlt := List.idxOf_lt_length_of_mem hmem
  obtain ⟨hr, hget⟩ := List.getElem?_eq_some_iff.mp h.rank
  rw [h.mirrors.localRank, Communicator.peers, h.mirrors.comm, List.getElem?_map,
    List.getElem?_eq_getElem hlt, List.getElem_idxOf hlt, h.mirrors.tables]
  show some (members.idxOf p.pid) = _
  rw [← hget, h.nodup.idxOf_getElem _ hr]

/-- A process has the library's rank `k` if it is the one with this rank. -/
theorem localRank_eq_iff (h : View members n r p c) {k : Nat} (hk : c.peers[k]? = some i) :
    c.localRank = k ↔ i = r := by
  have hown := h.peers_localRank
  have hnodup : c.peers.Nodup := by
    rw [h.peers_eq]
    exact nodup_localsOf members r
  constructor
  · rintro rfl
    exact Option.some.inj (hk.symm.trans hown)
  · rintro rfl
    have hlt := (List.getElem?_eq_some_iff.mp hown).1
    exact (List.getElem?_inj hlt hnodup).mp (hown.trans hk.symm)

/-- The coordinator that a process goes by is that of its cluster. -/
theorem myCoordinator (h : View members n r p c) :
    c.myCoordinator = some (coordinatorFor members r) := by
  rw [h.mirrors.myCoordinator, coordinatorFor, coordinatorOf, clusterAt_of_getElem? h.rank]

end View

end EsalsaMpi
