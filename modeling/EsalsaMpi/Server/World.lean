import EsalsaMpi.Server.Replies

/-!
# The world communicator of the server

`initCommWorld` numbers the application processes cluster by cluster, as
`membersFrom` does here for the clusters from some rank on.  The world
therefore has the members of each cluster in a row, and its tables are the
ones that a table of cluster sizes suggests (`tablesSpec_worldMembers`).
-/

namespace EsalsaMpi

open FirstOccurrence

namespace Server

/-- The application processes of the clusters with the given sizes, the first
of which has rank `k`. -/
def membersFrom (k : Nat) : List Nat → List Pid
  | [] => []
  | size :: sizes => (List.range size).map (setPid k) ++ membersFrom (k + 1) sizes

/-- The members of `COMM_WORLD`. -/
def worldMembers (cfg : Config) : List Pid := membersFrom 0 cfg.applicationSizes

/-- `Server.initCommWorld`; the slots 1 and 2 stand for `COMM_SELF` and
`COMM_NULL`. -/
def initCommWorld (cfg : Config) : Option State :=
  (tablesOf cfg.numberOfClusters (worldMembers cfg)).map fun t =>
    [some (Communicator.fresh 0 t), none, none]

/-- Sizes for which the PIDs of clusters `k`, `k + 1`, … are in range. -/
structure FitFrom (k : Nat) (sizes : List Nat) : Prop where
  clusters : k + sizes.length ≤ maxClusters
  size_le : ∀ size ∈ sizes, size ≤ maxProcessesPerCluster

theorem FitFrom.tail {k size : Nat} {sizes : List Nat} (h : FitFrom k (size :: sizes)) :
    FitFrom (k + 1) sizes := by
  refine ⟨?_, fun other hother => h.size_le other (List.mem_cons_of_mem _ hother)⟩
  have := h.clusters
  simp only [List.length_cons] at this
  omega

theorem Config.fit (cfg : Config) : FitFrom 0 cfg.applicationSizes := by
  refine ⟨?_, fun size hsize => ?_⟩
  · have := cfg.clusters_lt
    omega
  · have := cfg.size_le size hsize
    omega

theorem length_membersFrom (k : Nat) (sizes : List Nat) :
    (membersFrom k sizes).length = sizes.sum := by
  induction sizes generalizing k with
  | nil => rfl
  | cons size sizes ih =>
      rw [membersFrom, List.length_append, List.length_map, List.length_range, ih, List.sum_cons]

/-- Where a member of clusters in a row comes from. -/
theorem mem_membersFrom {k : Nat} {sizes : List Nat} (hfit : FitFrom k sizes) {pid : Pid} :
    pid ∈ membersFrom k sizes ↔
      ∃ i size, sizes[i]? = some size ∧ EsalsaMpi.getClusterRank pid = k + i ∧
        getProcessRank pid < size := by
  induction sizes generalizing k with
  | nil => simp [membersFrom]
  | cons size sizes ih =>
      have hk : k < maxClusters := by
        have := hfit.clusters
        simp only [List.length_cons] at this
        omega
      have hsize := hfit.size_le size List.mem_cons_self
      rw [membersFrom, List.mem_append, ih hfit.tail]
      constructor
      · rintro (hpid | ⟨i, size', hsize', hcluster, hprocess⟩)
        · obtain ⟨r, hr, rfl⟩ := List.mem_map.mp hpid
          rw [List.mem_range] at hr
          have hr' : r < maxProcessesPerCluster := by omega
          exact ⟨0, size, rfl, getClusterRank_setPid hk hr', by
            rw [getProcessRank_setPid hk hr']
            exact hr⟩
        · exact ⟨i + 1, size', hsize', by omega, hprocess⟩
      · rintro ⟨i, size', hsize', hcluster, hprocess⟩
        cases i with
        | zero =>
            left
            simp only [List.getElem?_cons_zero, Option.some.injEq] at hsize'
            subst hsize'
            have hr : getProcessRank pid < maxProcessesPerCluster := by omega
            refine List.mem_map.mpr ⟨getProcessRank pid, List.mem_range.mpr hprocess, ?_⟩
            apply pid_ext
            · rw [getClusterRank_setPid hk hr, hcluster, Nat.add_zero]
            · rw [getProcessRank_setPid hk hr]
        | succ i =>
            right
            exact ⟨i, size', by simpa using hsize', by omega, hprocess⟩

/-- No process occurs twice. -/
theorem nodup_membersFrom {k : Nat} {sizes : List Nat} (hfit : FitFrom k sizes) :
    (membersFrom k sizes).Nodup := by
  induction sizes generalizing k with
  | nil => exact List.nodup_nil
  | cons size sizes ih =>
      have hk : k < maxClusters := by
        have := hfit.clusters
        simp only [List.length_cons] at this
        omega
      have hsize := hfit.size_le size List.mem_cons_self
      rw [membersFrom]
      refine List.nodup_append.mpr ⟨?_, ih hfit.tail, ?_⟩
      · apply List.Nodup.map_on _ List.nodup_range
        intro r hr r' hr' heq
        rw [List.mem_range] at hr hr'
        rw [← getProcessRank_setPid hk (show r < maxProcessesPerCluster by omega), heq,
          getProcessRank_setPid hk (by omega)]
      · intro pid hpid other hother heq
        subst heq
        obtain ⟨r, hr, rfl⟩ := List.mem_map.mp hpid
        rw [List.mem_range] at hr
        obtain ⟨i, _, _, hcluster, _⟩ := (mem_membersFrom hfit.tail).mp hother
        rw [getClusterRank_setPid hk (by omega)] at hcluster
        omega

/-- The members of the world are the application processes. -/
theorem mem_worldMembers {cfg : Config} {pid : Pid} :
    pid ∈ worldMembers cfg ↔ cfg.IsApplication pid := by
  rw [worldMembers, mem_membersFrom cfg.fit]
  constructor
  · rintro ⟨i, size, hsize, hcluster, hprocess⟩
    refine ⟨size, ?_, hprocess⟩
    rw [hcluster, Nat.zero_add]
    exact hsize
  · rintro ⟨size, hsize, hprocess⟩
    exact ⟨_, size, hsize, by omega, hprocess⟩

theorem valid_worldMembers (cfg : Config) : cfg.Valid (worldMembers cfg) :=
  ⟨nodup_membersFrom cfg.fit, fun _ hpid => mem_worldMembers.mp hpid⟩

/-- Every cluster has a first process. -/
theorem Config.isApplication_first (cfg : Config) {k : Nat} (hk : k < cfg.applicationSizes.length) :
    cfg.IsApplication (setPid k 0) := by
  have hmem := List.getElem_mem hk
  have hlt : k < maxClusters := by
    have := cfg.clusters_lt
    omega
  refine ⟨cfg.applicationSizes[k], ?_, ?_⟩
  · rw [getClusterRank_setPid hlt (by decide)]
    exact List.getElem?_eq_getElem hk
  · rw [getProcessRank_setPid hlt (by decide)]
    exact cfg.size_pos _ hmem

/-- The world of the server. -/
theorem initCommWorld_eq (cfg : Config) :
    initCommWorld cfg =
      some [some (Communicator.fresh 0 (tablesSpec (worldMembers cfg))), none, none] := by
  have hknown : ∀ k ∈ clustersOf (worldMembers cfg), k < cfg.numberOfClusters := by
    intro k hk
    obtain ⟨pid, hpid, rfl⟩ := List.mem_map.mp hk
    exact (mem_worldMembers.mp hpid).cluster_lt
  rw [initCommWorld, tablesOf_eq, if_pos hknown]
  rfl

/-- The place of a process among members in a row. -/
theorem getElem?_membersFrom {k i r size : Nat} {sizes : List Nat}
    (hi : sizes[i]? = some size) (hr : r < size) :
    (membersFrom k sizes)[(sizes.take i).sum + r]? = some (setPid (k + i) r) := by
  induction sizes generalizing k i with
  | nil => simp at hi
  | cons first sizes ih =>
      rw [membersFrom]
      cases i with
      | zero =>
          simp only [List.getElem?_cons_zero, Option.some.injEq] at hi
          subst hi
          have hlt : r < ((List.range first).map (setPid k)).length := by simpa using hr
          simp [List.getElem?_append_left hlt, hr]
      | succ i =>
          have hrest := @ih (k + 1) i (by simpa using hi)
          have hge : ((List.range first).map (setPid k)).length ≤
              ((first :: sizes).take (i + 1)).sum + r := by
            simp
            omega
          rw [List.getElem?_append_right hge]
          have hplace : ((first :: sizes).take (i + 1)).sum + r -
              ((List.range first).map (setPid k)).length = (sizes.take i).sum + r := by
            simp
            omega
          rw [hplace, hrest, Nat.add_assoc, Nat.add_comm 1 i]

/-- The members of one cluster among members in a row. -/
theorem filter_membersFrom {k i size : Nat} {sizes : List Nat} (hfit : FitFrom k sizes)
    (hi : sizes[i]? = some size) :
    ((membersFrom k sizes).filter fun q => EsalsaMpi.getClusterRank q = k + i) =
      (List.range size).map (setPid (k + i)) := by
  induction sizes generalizing k i with
  | nil => simp at hi
  | cons first sizes ih =>
      have hk : k < maxClusters := by
        have := hfit.clusters
        simp only [List.length_cons] at this
        omega
      have hfirst := hfit.size_le first List.mem_cons_self
      have hcluster : ∀ q ∈ (List.range first).map (setPid k),
          EsalsaMpi.getClusterRank q = k := by
        intro q hq
        obtain ⟨r, hr, rfl⟩ := List.mem_map.mp hq
        rw [List.mem_range] at hr
        exact getClusterRank_setPid hk (by omega)
      rw [membersFrom, List.filter_append]
      cases i with
      | zero =>
          simp only [List.getElem?_cons_zero, Option.some.injEq] at hi
          subst hi
          have hnone : ((membersFrom (k + 1) sizes).filter fun q =>
              EsalsaMpi.getClusterRank q = k + 0) = [] := by
            apply List.filter_eq_nil_iff.mpr
            intro q hq
            obtain ⟨i, _, _, hq, _⟩ := (mem_membersFrom hfit.tail).mp hq
            simp only [decide_eq_true_eq]
            omega
          rw [hnone, List.append_nil]
          apply List.filter_eq_self.mpr
          intro q hq
          exact decide_eq_true (hcluster q hq)
      | succ i =>
          have hnone : (((List.range first).map (setPid k)).filter fun q =>
              EsalsaMpi.getClusterRank q = k + (i + 1)) = [] := by
            apply List.filter_eq_nil_iff.mpr
            intro q hq
            simp only [decide_eq_true_eq, hcluster q hq]
            omega
          have hrest := @ih (k + 1) i hfit.tail (by simpa using hi)
          rw [Nat.add_assoc, Nat.add_comm 1 i] at hrest
          rw [hnone, List.nil_append, hrest]

/-- The clusters of members in a row. -/
theorem clustersOf_membersFrom {k size : Nat} {sizes : List Nat}
    (hfit : FitFrom k (size :: sizes)) :
    clustersOf (membersFrom k (size :: sizes)) =
      List.replicate size k ++ clustersOf (membersFrom (k + 1) sizes) := by
  have hk : k < maxClusters := by
    have := hfit.clusters
    simp only [List.length_cons] at this
    omega
  have hsize := hfit.size_le size List.mem_cons_self
  rw [membersFrom, clustersOf, List.map_append, List.map_map]
  congr 1
  apply List.eq_replicate_iff.mpr
  refine ⟨by simp, fun c hc => ?_⟩
  obtain ⟨r, hr, rfl⟩ := List.mem_map.mp hc
  rw [List.mem_range] at hr
  exact getClusterRank_setPid hk (by omega)

/-- A cluster has no members in the clusters after it. -/
theorem notMem_clustersOf_membersFrom {k c : Nat} {sizes : List Nat}
    (hfit : FitFrom k sizes) (hc : c < k) : c ∉ clustersOf (membersFrom k sizes) := by
  intro hmem
  obtain ⟨pid, hpid, rfl⟩ := List.mem_map.mp hmem
  obtain ⟨i, _, _, hcluster, _⟩ := (mem_membersFrom hfit).mp hpid
  omega

/-- The distinct clusters of members in a row. -/
theorem eraseDups_clustersOf_membersFrom {k : Nat} {sizes : List Nat}
    (hfit : FitFrom k sizes) (hpos : ∀ size ∈ sizes, 0 < size) :
    (clustersOf (membersFrom k sizes)).eraseDups = List.range' k sizes.length := by
  induction sizes generalizing k with
  | nil => rfl
  | cons size sizes ih =>
      have hnot := notMem_clustersOf_membersFrom hfit.tail (Nat.lt_succ_self k)
      rw [clustersOf_membersFrom hfit,
        eraseDups_replicate_append (hpos size List.mem_cons_self) hnot,
        ih hfit.tail fun other hother => hpos other (List.mem_cons_of_mem _ hother),
        List.length_cons, List.range'_succ]

/-- The ranks of members in a row within their clusters. -/
theorem ranks_clustersOf_membersFrom {k : Nat} {sizes : List Nat}
    (hfit : FitFrom k sizes) :
    ranks (clustersOf (membersFrom k sizes)) =
      (membersFrom k sizes).map getProcessRank := by
  induction sizes generalizing k with
  | nil => rfl
  | cons size sizes ih =>
      have hk : k < maxClusters := by
        have := hfit.clusters
        simp only [List.length_cons] at this
        omega
      have hsize := hfit.size_le size List.mem_cons_self
      have hnot := notMem_clustersOf_membersFrom hfit.tail (Nat.lt_succ_self k)
      have hfirst : ((List.range size).map (setPid k)).map getProcessRank =
          List.range size := by
        rw [List.map_map]
        apply (List.map_congr_left _).trans (List.map_id _)
        intro r hr
        rw [List.mem_range] at hr
        exact getProcessRank_setPid hk (by omega)
      rw [clustersOf_membersFrom hfit, ranks_replicate_append _ hnot, ih hfit.tail,
        membersFrom, List.map_append, hfirst]

/-- The number of members in each cluster. -/
theorem count_clustersOf_membersFrom {k : Nat} {sizes : List Nat}
    (hfit : FitFrom k sizes) :
    (List.range' k sizes.length).map (clustersOf (membersFrom k sizes)).count = sizes := by
  induction sizes generalizing k with
  | nil => rfl
  | cons size sizes ih =>
      have hnot := notMem_clustersOf_membersFrom hfit.tail (Nat.lt_succ_self k)
      rw [clustersOf_membersFrom hfit, List.length_cons, List.range'_succ, List.map_cons,
        List.count_append, List.count_replicate_self, List.count_eq_zero_of_not_mem hnot]
      congr 1
      refine (List.map_congr_left ?_).trans (ih hfit.tail)
      intro c hc
      have hne : k ≠ c := by
        have := (List.mem_range'_1.mp hc).1
        omega
      rw [List.count_append, List.count_replicate, if_neg (by simpa using hne),
        Nat.zero_add]

/-- The first member of each cluster, when `offset` members stand before. -/
theorem idxOf_clustersOf_membersFrom {k offset : Nat} {sizes : List Nat}
    (hfit : FitFrom k sizes) (hpos : ∀ size ∈ sizes, 0 < size) :
    (List.range' k sizes.length).map
        (fun c => offset + (clustersOf (membersFrom k sizes)).idxOf c) =
      (sizes.scanl (· + ·) offset).dropLast := by
  induction sizes generalizing k offset with
  | nil => rfl
  | cons size sizes ih =>
      obtain ⟨n, hn⟩ : ∃ n, size = n + 1 :=
        ⟨size - 1, by have := hpos size List.mem_cons_self; omega⟩
      have hfirst : (clustersOf (membersFrom k (size :: sizes))).idxOf k = 0 := by
        rw [clustersOf_membersFrom hfit, hn, List.replicate_succ]
        exact List.idxOf_cons_self
      have hrest : ∀ c ∈ List.range' (k + 1) sizes.length,
          offset + (clustersOf (membersFrom k (size :: sizes))).idxOf c =
            (offset + size) + (clustersOf (membersFrom (k + 1) sizes)).idxOf c := by
        intro c hc
        have hne : c ∉ List.replicate size k := by
          have := (List.mem_range'_1.mp hc).1
          intro hmem
          have := List.eq_of_mem_replicate hmem
          omega
        rw [clustersOf_membersFrom hfit, List.idxOf_append_of_notMem hne,
          List.length_replicate]
        omega
      have hscan : sizes.scanl (· + ·) (offset + size) ≠ [] := by
        cases sizes <;> simp
      rw [List.length_cons, List.range'_succ, List.map_cons, hfirst, Nat.add_zero,
        List.map_congr_left hrest,
        ih hfit.tail fun other hother => hpos other (List.mem_cons_of_mem _ hother),
        List.scanl_cons, List.dropLast_cons_of_ne_nil hscan]

/-- The clusters of members in a row ascend. -/
theorem pairwise_clustersOf_membersFrom {k : Nat} {sizes : List Nat}
    (hfit : FitFrom k sizes) :
    (clustersOf (membersFrom k sizes)).Pairwise (· ≤ ·) := by
  induction sizes generalizing k with
  | nil => exact List.Pairwise.nil
  | cons size sizes ih =>
      rw [clustersOf_membersFrom hfit]
      refine List.pairwise_append.mpr ⟨?_, ih hfit.tail, ?_⟩
      · exact List.pairwise_replicate.mpr (Or.inr (Nat.le_refl k))
      · intro c hc c' hc'
        rw [List.eq_of_mem_replicate hc]
        obtain ⟨pid, hpid, rfl⟩ := List.mem_map.mp hc'
        obtain ⟨i, _, _, hcluster, _⟩ := (mem_membersFrom hfit.tail).mp hpid
        omega

/-- **The tables of the world**, as the sizes of the clusters give them. -/
theorem tablesSpec_worldMembers (cfg : Config) :
    tablesSpec (worldMembers cfg) =
      { members := worldMembers cfg
        coordinators := (cfg.applicationSizes.scanl (· + ·) 0).dropLast
        clusterSizes := cfg.applicationSizes
        clusterRanks := List.range cfg.numberOfClusters
        memberClusterIndex := (worldMembers cfg).map EsalsaMpi.getClusterRank
        localRanks := (worldMembers cfg).map getProcessRank } := by
  have hfit := cfg.fit
  have hdups : (clustersOf (worldMembers cfg)).eraseDups =
      List.range' 0 cfg.applicationSizes.length :=
    eraseDups_clustersOf_membersFrom hfit cfg.size_pos
  have hcoordinators := @idxOf_clustersOf_membersFrom 0 0 _ hfit cfg.size_pos
  simp only [Nat.zero_add] at hcoordinators
  have hindex : newests (clustersOf (worldMembers cfg)) =
      (worldMembers cfg).map EsalsaMpi.getClusterRank := by
    have hgrouped : Grouped (clustersOf (worldMembers cfg)) :=
      grouped_of_pairwise_le (pairwise_clustersOf_membersFrom hfit)
    rw [(newests_eq_iff_grouped _).mpr hgrouped, hdups, clustersOf, List.map_map]
    apply List.map_congr_left
    intro pid hpid
    have hlt := (mem_worldMembers.mp hpid).cluster_lt
    have hlt' : EsalsaMpi.getClusterRank pid <
        (List.range' 0 cfg.applicationSizes.length).length := by
      simpa [Config.numberOfClusters] using hlt
    have hget : (List.range' 0 cfg.applicationSizes.length)[EsalsaMpi.getClusterRank pid] =
        EsalsaMpi.getClusterRank pid := by simp
    calc (List.range' 0 cfg.applicationSizes.length).idxOf (EsalsaMpi.getClusterRank pid)
        = (List.range' 0 cfg.applicationSizes.length).idxOf
            (List.range' 0 cfg.applicationSizes.length)[EsalsaMpi.getClusterRank pid] := by
          rw [hget]
      _ = EsalsaMpi.getClusterRank pid :=
          List.Nodup.idxOf_getElem List.nodup_range' _ hlt'
  simp only [tablesSpec, hdups, hindex, Tables.mk.injEq, true_and]
  refine ⟨hcoordinators, count_clustersOf_membersFrom hfit, ?_,
    ranks_clustersOf_membersFrom hfit⟩
  rw [Config.numberOfClusters, List.range_eq_range']

/-- The smallest run: two clusters of one application process and one gateway
each. -/
def Config.pair : Config where
  applicationSizes := [1, 1]
  numberOfGatewaysPerCluster := 1
  one_lt_clusters := by decide
  clusters_lt := by decide
  gateways_pos := Nat.one_pos
  size_pos := by decide
  size_le := by decide

end Server

end EsalsaMpi
