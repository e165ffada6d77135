import EsalsaMpi.Settings
import EsalsaMpi.Library.FirstOccurrence

/-!
# The tables of a communicator

The server describes a communicator by its list of member PIDs and by five
tables that its constructor (`Communicator.java`) fills in one pass over that
list.  The same six lists travel in the replies and end up in the
`s_communicator` of every client.

`tablesOf` is the pass, entry by entry, with the counters it shares between
the tables; `tablesOf_eq` replaces the pass by what it computes.  Four of the
tables always describe the member list.  The fifth, `memberClusterIndex`,
holds the newest cluster instead of the member's own, so it is right exactly
when the members of every cluster are consecutive
(`describes_iff_grouped`).
-/

namespace EsalsaMpi

open FirstOccurrence

/-- The member list of a communicator and the tables that describe it. -/
structure Tables where
  members : List Pid
  coordinators : List Nat
  clusterSizes : List Nat
  clusterRanks : List Nat
  memberClusterIndex : List Nat
  localRanks : List Nat
deriving DecidableEq, Repr

/-- The clusters of a list of members, member by member. -/
def clustersOf (members : List Pid) : List Nat := members.map getClusterRank

@[simp] theorem length_clustersOf (members : List Pid) :
    (clustersOf members).length = members.length := by
  simp [clustersOf]

theorem getElem?_clustersOf (members : List Pid) (i : Nat) :
    (clustersOf members)[i]? = members[i]?.map getClusterRank := by
  simp [clustersOf]

theorem clustersOf_concat (members : List Pid) (pid : Pid) :
    clustersOf (members ++ [pid]) = clustersOf members ++ [getClusterRank pid] := by
  simp [clustersOf]

/-- What the tables of a communicator say about its member list, the ranks of
members and of clusters being places in the lists. -/
structure Tables.Describes (t : Tables) : Prop where
  clusterRanks_nodup : t.clusterRanks.Nodup
  mem_clusterRanks : ∀ k, k ∈ t.clusterRanks ↔ k ∈ clustersOf t.members
  memberClusterIndex : t.memberClusterIndex =
    (clustersOf t.members).map fun k => t.clusterRanks.idxOf k
  clusterSizes : t.clusterSizes =
    t.clusterRanks.map fun k => (clustersOf t.members).count k
  coordinators : t.coordinators =
    t.clusterRanks.map fun k => (clustersOf t.members).idxOf k
  length_localRanks : t.localRanks.length = t.members.length
  localRanks : ∀ k,
    (((clustersOf t.members).zip t.localRanks).filter fun e => e.1 = k).map (·.2)
      = List.range ((clustersOf t.members).count k)

namespace Server

/-- `Communicator.getClusterRank`.  The sign that Java's `>>` shifts in is
masked away, so the shift of the unsigned word gives the same rank. -/
def getClusterRank (pid : Pid) : Nat :=
  (((pid &&& 0xFF000000) >>> 24) &&& 0xFF).toNat

/-- Server and clients read the same cluster rank from a PID. -/
theorem getClusterRank_eq_client (pid : Pid) :
    getClusterRank pid = EsalsaMpi.getClusterRank pid := by
  have hlt : EsalsaMpi.getClusterRank pid < 2 ^ 8 := getClusterRank_lt pid
  have hmask : getClusterRank pid =
      EsalsaMpi.getClusterRank pid &&& (2 ^ 8 - 1) := by
    simp [getClusterRank, EsalsaMpi.getClusterRank, UInt32.toNat_and]
  rw [hmask, Nat.and_two_pow_sub_one_eq_mod, Nat.mod_eq_of_lt hlt]

/-- `Communicator.ClusterInfo`: the rank of the cluster object, the place of
the first member of that cluster and the number of members met so far. -/
structure ClusterInfo where
  cluster : Nat
  coordinatorRank : Nat
  size : Nat
deriving DecidableEq, Repr

/-- `ClusterInfo.increaseSize`; the value it returns is the size before. -/
def ClusterInfo.increaseSize (info : ClusterInfo) : ClusterInfo :=
  { info with size := info.size + 1 }

/-- The variables of the constructor's loop.  `infoMap` holds the objects of
the list `info` under their cluster rank, so a lookup searches `info`. -/
structure Pass where
  info : List ClusterInfo
  localRanks : List Nat
  memberClusterIndex : List Nat
deriving DecidableEq, Repr

/-- One turn of the constructor's loop, for the member `pid` at place `i`.
`parent.getCluster` throws for a rank that is not one of the server's
clusters. -/
def addMember (numberOfClusters : Nat) (pass : Pass) (i : Nat) (pid : Pid) :
    Option Pass :=
  let clusterRank := getClusterRank pid
  match pass.info.find? fun tmp => tmp.cluster == clusterRank with
  | none =>
    if clusterRank < numberOfClusters then
      let info := pass.info ++ [⟨clusterRank, i, 1⟩]
      some
        { info := info
          localRanks := pass.localRanks ++ [0]
          memberClusterIndex := pass.memberClusterIndex ++ [info.length - 1] }
    else
      none
  | some tmp =>
    some
      { info := pass.info.map fun t =>
          if t.cluster == clusterRank then t.increaseSize else t
        localRanks := pass.localRanks ++ [tmp.size]
        memberClusterIndex := pass.memberClusterIndex ++ [pass.info.length - 1] }

/-- The constructor's loop from place `i` on. -/
def addMembers (numberOfClusters : Nat) : Pass → Nat → List Pid → Option Pass
  | pass, _, [] => some pass
  | pass, i, pid :: rest =>
    (addMember numberOfClusters pass i pid).bind fun pass =>
      addMembers numberOfClusters pass (i + 1) rest

/-- The tables that the constructor stores for a list of members, `none` when
it throws. -/
def tablesOf (numberOfClusters : Nat) (members : List Pid) : Option Tables :=
  (addMembers numberOfClusters ⟨[], [], []⟩ 0 members).map fun pass =>
    { members := members
      coordinators := pass.info.map (·.coordinatorRank)
      clusterSizes := pass.info.map (·.size)
      clusterRanks := pass.info.map (·.cluster)
      memberClusterIndex := pass.memberClusterIndex
      localRanks := pass.localRanks }

/-- What the loop has computed from the members it has handled. -/
def passOf (members : List Pid) : Pass where
  info := (clustersOf members).eraseDups.map fun k =>
    ⟨k, (clustersOf members).idxOf k, (clustersOf members).count k⟩
  localRanks := ranks (clustersOf members)
  memberClusterIndex := newests (clustersOf members)

/-- Looking up a cluster among those met so far. -/
theorem find_info (ks : List Nat) (k : Nat) (f : Nat → ClusterInfo)
    (hf : ∀ l, (f l).cluster = l) :
    (ks.map f).find? (fun tmp => tmp.cluster == k) =
      if k ∈ ks then some (f k) else none := by
  induction ks with
  | nil => simp
  | cons l ks ih =>
      by_cases hl : l = k
      · simp [hf, hl]
      · have hl' : k ≠ l := fun h => hl h.symm
        rw [List.map_cons, List.find?_cons_of_neg (by simpa [hf] using hl), ih]
        simp [hl']

/-- The loop turn for a member of a cluster met before. -/
theorem addMember_seen {n : Nat} {members : List Pid} {pid : Pid}
    (hseen : EsalsaMpi.getClusterRank pid ∈ clustersOf members) :
    addMember n (passOf members) members.length pid =
      some (passOf (members ++ [pid])) := by
  have hfind := find_info (clustersOf members).eraseDups
    (EsalsaMpi.getClusterRank pid)
    (fun k => ⟨k, (clustersOf members).idxOf k, (clustersOf members).count k⟩)
    (fun _ => rfl)
  rw [if_pos (List.mem_eraseDups.mpr hseen)] at hfind
  have hinfo : ((passOf members).info.map fun t =>
        if t.cluster == EsalsaMpi.getClusterRank pid then t.increaseSize else t) =
      (passOf (members ++ [pid])).info := by
    simp only [passOf, clustersOf_concat, eraseDups_concat, if_pos hseen,
      List.map_map]
    apply List.map_congr_left
    intro k hk
    have hk' : k ∈ clustersOf members := List.mem_eraseDups.mp hk
    by_cases heq : k = EsalsaMpi.getClusterRank pid
    · simp [heq, ClusterInfo.increaseSize, List.idxOf_append_of_mem hseen]
    · have heq' : EsalsaMpi.getClusterRank pid ≠ k := fun h => heq h.symm
      simp [heq, heq', List.idxOf_append_of_mem hk']
  have hindex : (passOf members).info.length - 1 =
      newest (clustersOf members ++ [EsalsaMpi.getClusterRank pid]) := by
    rw [newest_concat_of_mem hseen]
    simp [newest, passOf]
  unfold addMember
  rw [getClusterRank_eq_client]
  simp only [hinfo, hindex]
  simp only [passOf, clustersOf_concat, ranks_concat, newests_concat] at hfind ⊢
  rw [hfind]

/-- The loop turn for the first member of one of the server's clusters. -/
theorem addMember_new {n : Nat} {members : List Pid} {pid : Pid}
    (hnew : EsalsaMpi.getClusterRank pid ∉ clustersOf members)
    (hlt : EsalsaMpi.getClusterRank pid < n) :
    addMember n (passOf members) members.length pid =
      some (passOf (members ++ [pid])) := by
  have hfind := find_info (clustersOf members).eraseDups
    (EsalsaMpi.getClusterRank pid)
    (fun k => ⟨k, (clustersOf members).idxOf k, (clustersOf members).count k⟩)
    (fun _ => rfl)
  rw [if_neg (by simpa [List.mem_eraseDups] using hnew)] at hfind
  have hinfo : (passOf members).info ++
        [⟨EsalsaMpi.getClusterRank pid, members.length, 1⟩] =
      (passOf (members ++ [pid])).info := by
    simp only [passOf, clustersOf_concat, eraseDups_concat, if_neg hnew,
      List.map_append, List.map_singleton]
    congr 1
    · apply List.map_congr_left
      intro k hk
      have hk' : k ∈ clustersOf members := List.mem_eraseDups.mp hk
      have hne : EsalsaMpi.getClusterRank pid ≠ k := fun h => hnew (h ▸ hk')
      simp [hne, List.idxOf_append_of_mem hk']
    · simp [List.idxOf_append_of_notMem hnew, List.count_eq_zero_of_not_mem hnew]
  have hindex : (passOf (members ++ [pid])).info.length - 1 =
      newest (clustersOf members ++ [EsalsaMpi.getClusterRank pid]) := by
    simp [newest, passOf, clustersOf_concat]
  unfold addMember
  rw [getClusterRank_eq_client]
  simp only [hinfo, hindex]
  simp only [passOf, clustersOf_concat, ranks_concat, newests_concat,
    List.count_eq_zero_of_not_mem hnew] at hfind ⊢
  rw [hfind]
  simp [hlt]

/-- The constructor throws at the first member of a cluster the server does
not have. -/
theorem addMember_unknown {n : Nat} {members : List Pid} {pid : Pid}
    (hmembers : ∀ k ∈ clustersOf members, k < n)
    (hge : ¬ EsalsaMpi.getClusterRank pid < n) :
    addMember n (passOf members) members.length pid = none := by
  have hnew : EsalsaMpi.getClusterRank pid ∉ clustersOf members :=
    fun h => hge (hmembers _ h)
  have hfind := find_info (clustersOf members).eraseDups
    (EsalsaMpi.getClusterRank pid)
    (fun k => ⟨k, (clustersOf members).idxOf k, (clustersOf members).count k⟩)
    (fun _ => rfl)
  rw [if_neg (by simpa [List.mem_eraseDups] using hnew)] at hfind
  unfold addMember
  rw [getClusterRank_eq_client]
  simp only [passOf] at hfind ⊢
  rw [hfind]
  simp [hge]

/-- What the loop makes of the members still to come. -/
theorem addMembers_passOf (n : Nat) (members rest : List Pid)
    (hmembers : ∀ k ∈ clustersOf members, k < n) :
    addMembers n (passOf members) members.length rest =
      if ∀ k ∈ clustersOf rest, k < n then some (passOf (members ++ rest))
      else none := by
  induction rest generalizing members with
  | nil => simp [addMembers, clustersOf]
  | cons pid rest ih =>
      by_cases hlt : EsalsaMpi.getClusterRank pid < n
      · have hstep : addMember n (passOf members) members.length pid =
            some (passOf (members ++ [pid])) := by
          by_cases hseen : EsalsaMpi.getClusterRank pid ∈ clustersOf members
          · exact addMember_seen hseen
          · exact addMember_new hseen hlt
        have hmembers' : ∀ k ∈ clustersOf (members ++ [pid]), k < n := by
          intro k hk
          rw [clustersOf_concat, List.mem_append, List.mem_singleton] at hk
          rcases hk with hk | rfl
          · exact hmembers k hk
          · exact hlt
        have hrest := ih (members ++ [pid]) hmembers'
        rw [List.length_append, List.length_singleton] at hrest
        rw [addMembers, hstep, Option.bind_some, hrest]
        simp [clustersOf, hlt]
      · rw [addMembers, addMember_unknown hmembers hlt]
        simp [clustersOf, hlt]

/-- The tables as functions of the clusters of the members, in member order. -/
def tablesSpec (members : List Pid) : Tables where
  members := members
  coordinators := (clustersOf members).eraseDups.map (clustersOf members).idxOf
  clusterSizes := (clustersOf members).eraseDups.map (clustersOf members).count
  clusterRanks := (clustersOf members).eraseDups
  memberClusterIndex := newests (clustersOf members)
  localRanks := ranks (clustersOf members)

/-- **The constructor's pass.**  It succeeds exactly on members of the server's
own clusters, and computes `tablesSpec`. -/
theorem tablesOf_eq (n : Nat) (members : List Pid) :
    tablesOf n members =
      if ∀ k ∈ clustersOf members, k < n then some (tablesSpec members)
      else none := by
  have hpass := addMembers_passOf n [] members (by simp [clustersOf])
  have hstart : passOf [] = ⟨[], [], []⟩ := by simp [passOf, clustersOf, ranks, newests]
  rw [hstart, List.length_nil, List.nil_append] at hpass
  unfold tablesOf
  rw [hpass]
  split
  · simp [tablesSpec, passOf, Function.comp_def]
  · rfl

/-- **The tables describe the members exactly when each cluster's members are
consecutive.**  Every table but `memberClusterIndex` describes any list. -/
theorem describes_iff_grouped (members : List Pid) :
    (tablesSpec members).Describes ↔ Grouped (clustersOf members) := by
  rw [← newests_eq_iff_grouped]
  constructor
  · intro h
    exact h.memberClusterIndex
  · intro h
    exact
      { clusterRanks_nodup := nodup_eraseDups _
        mem_clusterRanks := fun k => List.mem_eraseDups
        memberClusterIndex := h
        clusterSizes := rfl
        coordinators := rfl
        length_localRanks := by simp [tablesSpec]
        localRanks := ranks_of_key _ }

end Server

end EsalsaMpi
