import EsalsaMpi.Backend.Broadcast
import Mathlib.Data.List.GetD

/-!
# Who sends what where in `EMPI_Allgatherv`

The call works with two views of a communicator that lists its clusters in
order.  The members are in clusters, which decides who sends to which
coordinator; and the tables file each member under a cluster, which decides
where the blocks lie in the buffer.  `Layout` has both, with what relates them
for any order of the members: nobody is filed under an earlier cluster than the
own, and coordinators are filed under their own.

The two agree at a member exactly when no member of a later cluster comes
before it (`index_eq_cluster_iff`).
-/

namespace EsalsaMpi

open FirstOccurrence

/-- The members of a communicator, the clusters they are in and those they are
filed under. -/
structure Layout where
  size : Nat
  clusters : Nat
  cluster : Nat → Nat
  index : Nat → Nat
  coordinator : Nat → Nat
  cluster_lt : ∀ i < size, cluster i < clusters
  index_lt : ∀ i < size, index i < clusters
  cluster_le_index : ∀ i < size, cluster i ≤ index i
  coordinator_lt : ∀ k < clusters, coordinator k < size
  cluster_coordinator : ∀ k < clusters, cluster (coordinator k) = k
  index_coordinator : ∀ k < clusters, index (coordinator k) = k

namespace Layout

/-- The layout of members whose clusters come in order. -/
def ofMembers (members : List Pid) (clusters : Nat)
    (hranks : (clustersOf members).eraseDups = List.range clusters) : Layout where
  size := members.length
  clusters := clusters
  cluster i := (clustersOf members).getD i 0
  index i := (newests (clustersOf members)).getD i 0
  coordinator := (clustersOf members).idxOf
  cluster_lt i hi := by
    have hi' : i < (clustersOf members).length := by simpa using hi
    rw [List.getD_eq_getElem _ _ hi', ← List.mem_range, ← hranks, List.mem_eraseDups]
    exact List.getElem_mem hi'
  index_lt i hi := by
    have hi' : i < (clustersOf members).length := by simpa using hi
    have hlt := newest_take_lt hi'
    rw [hranks, List.length_range] at hlt
    simpa [newests, hi] using hlt
  cluster_le_index i hi := by
    have hi' : i < (clustersOf members).length := by simpa using hi
    have hle := idxOf_le_newest hi'
    have hmem : (clustersOf members)[i] < clusters := by
      rw [← List.mem_range, ← hranks, List.mem_eraseDups]
      exact List.getElem_mem hi'
    rw [hranks, idxOf_range hmem] at hle
    simpa [newests, hi] using hle
  coordinator_lt k hk := by
    have hmem : k ∈ clustersOf members := by
      rwa [← List.mem_eraseDups, hranks, List.mem_range]
    simpa using List.idxOf_lt_length_of_mem hmem
  cluster_coordinator k hk := by
    have hmem : k ∈ clustersOf members := by
      rwa [← List.mem_eraseDups, hranks, List.mem_range]
    have hlt := List.idxOf_lt_length_of_mem hmem
    rw [List.getD_eq_getElem _ _ hlt, List.getElem_idxOf hlt]
  index_coordinator k hk := by
    have hmem : k ∈ clustersOf members := by
      rwa [← List.mem_eraseDups, hranks, List.mem_range]
    have hlt := List.idxOf_lt_length_of_mem hmem
    have hnewest := newest_take_idxOf hmem
    rw [hranks, idxOf_range hk] at hnewest
    have hlt' : (clustersOf members).idxOf k < members.length := by simpa using hlt
    simpa [newests, hlt'] using hnewest

/-- **Where the two views agree.** -/
theorem index_eq_cluster_iff {members : List Pid} {clusters : Nat}
    (hranks : (clustersOf members).eraseDups = List.range clusters) {i : Nat}
    (hi : i < members.length) :
    (ofMembers members clusters hranks).index i = (ofMembers members clusters hranks).cluster i ↔
      ∀ j < i, (clustersOf members).getD j 0 ≤ (clustersOf members).getD i 0 := by
  have hi' : i < (clustersOf members).length := by simpa using hi
  have hiff := newest_take_eq_iff hranks hi'
  have hindex : (ofMembers members clusters hranks).index i =
      newest ((clustersOf members).take (i + 1)) := by
    simp [ofMembers, newests, hi]
  have hcluster : ∀ j (hj : j < (clustersOf members).length),
      (clustersOf members).getD j 0 = (clustersOf members)[j] :=
    fun j hj => List.getD_eq_getElem _ _ hj
  show _ = (clustersOf members).getD i 0 ↔ _
  rw [hindex, hcluster i hi', hiff]
  constructor
  · intro h j hj
    rw [hcluster j (by omega)]
    exact h j hj
  · intro h j hj
    have hle := h j hj
    rwa [hcluster j (by omega)] at hle

/-- What the process `p` with rank `r` sees of the layout in its communicator
`n`. -/
structure Shows (L : Layout) (n r : Nat) (p : Process) (c : Communicator) : Prop where
  rank_lt : r < L.size
  handle : c.handle = n
  globalRank : c.globalRank = r
  globalSize : c.globalSize = L.size
  clusterCount : c.clusterCount = L.clusters
  clusterRank : p.clusterRank = L.cluster r
  myCoordinator : c.myCoordinator = some (L.coordinator (L.cluster r))
  memberClusterIndex : ∀ i < L.size, c.tables.memberClusterIndex[i]? = some (L.index i)
  coordinators : ∀ k < L.clusters, c.tables.coordinators[k]? = some (L.coordinator k)
  getClusterRank : ∀ i < L.size, c.getClusterRank i = some (L.cluster i)

/-- A member that mirrors the communicator sees its layout. -/
theorem shows_of_mirrors {members : List Pid} {clusters n : Nat} {p : Process} {c : Communicator}
    (hranks : (clustersOf members).eraseDups = List.range clusters)
    (h : Mirrors p.pid n members c) :
    (ofMembers members clusters hranks).Shows n c.globalRank p c := by
  have hrank := (List.getElem?_eq_some_iff.mp h.globalRank).1
  have hcluster : (clustersOf members).getD c.globalRank 0 = p.clusterRank := by
    rw [List.getD_eq_getElem?_getD, getElem?_clustersOf, h.globalRank]
    rfl
  constructor
  · exact hrank
  · exact h.handle
  · rfl
  · exact h.globalSize
  · rw [h.clusterCount, h.tables]
    simp [Server.tablesSpec, hranks, ofMembers]
  · exact hcluster.symm
  · rw [h.myCoordinator]
    show _ = some ((clustersOf members).idxOf ((clustersOf members).getD c.globalRank 0))
    rw [hcluster]
    rfl
  · intro i hi
    have hi' : i < (newests (clustersOf members)).length := by
      rw [length_newests, length_clustersOf]
      exact hi
    rw [h.tables]
    show (newests (clustersOf members))[i]? = some ((newests (clustersOf members)).getD i 0)
    rw [List.getD_eq_getElem _ _ hi', List.getElem?_eq_getElem hi']
  · intro k hk
    have hk' : k < clusters := hk
    rw [h.tables, getElem?_coordinators]
    simp [Server.tablesSpec, hranks, hk', ofMembers]
  · intro i hi
    have hi' : i < members.length := hi
    rw [Communicator.getClusterRank, Communicator.getPid, h.tables]
    show members[i]?.map getClusterRank = some ((clustersOf members).getD i 0)
    rw [List.getD_eq_getElem?_getD, getElem?_clustersOf, List.getElem?_eq_getElem hi']
    rfl

end Layout

end EsalsaMpi
