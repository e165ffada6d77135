import EsalsaMpi.Backend.Collectives

/-!
# What a client knows of a communicator

A client mirrors a communicator when its tables are those of the member list,
it knows its own place in that list, and its communicator of the local library
consists of the members of its cluster in the order of the list (`Mirrors`).

The world that `init_communicators` builds is such a mirror
(`initCommunicators_mirrors`), and so is what a client registers after a reply
of the server, provided the local library has returned the members of its
cluster in the order of the list.  That it has is shown for each operation:
`pmpiCommSplit_eq` for a split by the keys of the replies, and
`localCommCreate_eq` for a create.
-/

namespace EsalsaMpi

open FirstOccurrence

/-- The members of the cluster of `pid`, in the order of the member list. -/
def clusterMembers (pid : Pid) (members : List Pid) : List Pid :=
  members.filter fun q => getClusterRank q = getClusterRank pid

/-- The process `pid` knows communicator `n` with the given members. -/
structure Mirrors (pid : Pid) (n : Nat) (members : List Pid) (c : Communicator) : Prop where
  handle : c.handle = n
  tables : c.tables = Server.tablesSpec members
  clusterCount : c.clusterCount = c.tables.coordinators.length
  globalRank : members[c.globalRank]? = some pid
  globalSize : c.globalSize = members.length
  comm : c.comm = clusterMembers pid members
  localRank : c.localRank = c.comm.idxOf pid
  localSize : c.localSize = c.comm.length
  myCoordinator : c.myCoordinator =
    some ((clustersOf members).idxOf (getClusterRank pid))

/-- `p'` is `p` with the communicator `c` under the handle `n`. -/
structure Process.Registers (p p' : Process) (n : Nat) (c : Communicator) : Prop where
  pid : p'.pid = p.pid
  comms : ∀ h, p'.comms h = if h = n then some c else p.comms h

variable {p p' : Process} {n : Nat} {members : List Pid} {c : Communicator}

/-- What `add_communicator` does when it does not end the process. -/
theorem addCommunicator_eq_some {handle : Int} {initial : Bool}
    (h : p.addCommunicator handle initial c = some p') :
    0 ≤ handle ∧ handle < maxCommunicators ∧
      p.Registers p' handle.toNat
        { c with
          handle := handle.toNat
          myCoordinator := findCoordinator p.clusterRank c.clusterCount c.tables } := by
  unfold Process.addCommunicator at h
  split at h
  · cases h
  · rename_i hbounds
    split at h
    · cases h
    · split at h
      · cases h
      · cases h
        exact ⟨by omega, by omega, rfl, fun _ => rfl⟩

/-- A loop over the places of a list that keeps the entry of the last hit, with
one hit. -/
theorem foldl_range_hit {ks os : List Nat} {k i : Nat} (hnodup : ks.Nodup)
    (hi : ks[i]? = some k) (m : Nat) :
    (List.range m).foldl (fun found j => if ks[j]? = some k then os[j]? else found) none =
      if i < m then os[i]? else none := by
  induction m with
  | zero => rfl
  | succ m ih =>
      rw [List.range_succ, List.foldl_append, ih, List.foldl_cons, List.foldl_nil]
      by_cases hm : ks[m]? = some k
      · have hlt := (List.getElem?_eq_some_iff.mp hi).1
        have heq : i = m := (List.getElem?_inj hlt hnodup).mp (hi.trans hm.symm)
        rw [if_pos hm, if_pos (by omega), heq]
      · have hne : i ≠ m := by
          rintro rfl
          exact hm hi
        rw [if_neg hm]
        by_cases hlt : i < m
        · rw [if_pos hlt, if_pos (by omega)]
        · rw [if_neg hlt, if_neg (by omega)]

/-- The coordinator that `add_communicator` finds is the first member of the
caller's cluster. -/
theorem findCoordinator_tablesSpec {k : Nat} (hk : k ∈ clustersOf members) :
    findCoordinator k (Server.tablesSpec members).coordinators.length
      (Server.tablesSpec members) = some ((clustersOf members).idxOf k) := by
  have hmem : k ∈ (clustersOf members).eraseDups := List.mem_eraseDups.mpr hk
  have hlt := List.idxOf_lt_length_of_mem hmem
  have hget : (clustersOf members).eraseDups[(clustersOf members).eraseDups.idxOf k]? =
      some k := by
    rw [List.getElem?_eq_getElem hlt, List.getElem_idxOf hlt]
  have hcount : (Server.tablesSpec members).coordinators.length =
      (clustersOf members).eraseDups.length := by
    simp [Server.tablesSpec]
  have hne : (clustersOf members).eraseDups.length ≠ 0 := by omega
  rw [findCoordinator, hcount, if_neg hne]
  have hloop := @foldl_range_hit (Server.tablesSpec members).clusterRanks
    (Server.tablesSpec members).coordinators _ _ (nodup_eraseDups (clustersOf members))
    hget (clustersOf members).eraseDups.length
  rw [if_pos hlt] at hloop
  rw [hloop, Server.tablesSpec, List.getElem?_map, hget, Option.map_some]

/-- The cluster of a member is one of the clusters of the members. -/
theorem mem_clustersOf {pid : Pid} (h : pid ∈ members) :
    getClusterRank pid ∈ clustersOf members := List.mem_map_of_mem h

/-- **Registering a reply.**  The client mirrors the new communicator of the
server, if its local library returned the members of its cluster in order. -/
theorem createCommunicator_mirrors {j : Nat} (hj : members[j]? = some p.pid)
    (h : p.createCommunicator
      ((Server.Communicator.fresh n (Server.tablesSpec members)).infoFor j)
      (clusterMembers p.pid members) = some p') :
    ∃ c, p.Registers p' n c ∧ Mirrors p.pid n members c := by
  obtain ⟨_, _, hregisters⟩ := addCommunicator_eq_some h
  refine ⟨_, hregisters, ?_⟩
  have hcluster := mem_clustersOf (List.mem_of_getElem? hj)
  exact
    { handle := rfl
      tables := rfl
      clusterCount := rfl
      globalRank := hj
      globalSize := rfl
      comm := rfl
      localRank := rfl
      localSize := rfl
      myCoordinator := findCoordinator_tablesSpec hcluster }

/-- **Registering a dup.** -/
theorem finishDup_mirrors {h : Nat} (hc : Mirrors p.pid h members c)
    (hdup : p.finishDup c n = some p') :
    ∃ c', p.Registers p' n c' ∧ Mirrors p.pid n members c' := by
  obtain ⟨_, _, hregisters⟩ := addCommunicator_eq_some hdup
  refine ⟨_, hregisters, ?_⟩
  have hcluster := mem_clustersOf (List.mem_of_getElem? hc.globalRank)
  exact
    { handle := rfl
      tables := hc.tables
      clusterCount := hc.clusterCount
      globalRank := hc.globalRank
      globalSize := hc.globalSize
      comm := hc.comm
      localRank := hc.localRank
      localSize := hc.localSize
      myCoordinator := by
        simp only [hc.clusterCount, hc.tables]
        exact findCoordinator_tablesSpec hcluster }

/-- The rank of a member in its cluster is its place among the members of its
cluster. -/
theorem localRanks_eq_idxOf (hnodup : members.Nodup) {i : Nat} {pid : Pid}
    (hi : members[i]? = some pid) :
    (Server.tablesSpec members).localRanks[i]? =
      some ((clusterMembers pid members).idxOf pid) :=
  idxOf_filter_eq_rank hnodup hi

section World

open Server

/-- The ranks of a process that the loop of `init_communicators` counts. -/
def rowOf (pid : Pid) : Nat × Nat := (getClusterRank pid, getProcessRank pid)

variable {offsets : List Nat}

/-- The loop of `init_communicators` inside one cluster. -/
theorem fillWorld_inside (m n i k r : Nat) (hi : i + m ≤ offsets.getD (k + 1) 0) :
    fillWorld offsets (m + n) i k r =
      (List.range' r m).map (k, ·) ++ fillWorld offsets n (i + m) k (r + m) := by
  induction m generalizing i r with
  | zero => simp
  | succ m ih =>
      have hlt : ¬ offsets.getD (k + 1) 0 ≤ i := by omega
      have hrest := ih (i + 1) (r + 1) (by omega)
      rw [show m + 1 + n = (m + n) + 1 by omega, fillWorld, if_neg hlt, hrest,
        List.range'_succ, List.map_cons, List.cons_append,
        show i + 1 + m = i + (m + 1) by omega, show r + 1 + m = r + (m + 1) by omega]

/-- The loop of `init_communicators` over the clusters after `k`. -/
theorem fillWorld_after {sizes : List Nat} (k i r : Nat) (hfit : FitFrom (k + 1) sizes)
    (hpos : ∀ size ∈ sizes, 0 < size)
    (hoffsets : ∀ j ≤ sizes.length, offsets.getD (k + 1 + j) 0 = i + (sizes.take j).sum) :
    fillWorld offsets sizes.sum i k r = (membersFrom (k + 1) sizes).map rowOf := by
  induction sizes generalizing k i r with
  | nil => rfl
  | cons size sizes ih =>
      obtain ⟨m, rfl⟩ : ∃ m, size = m + 1 :=
        ⟨size - 1, by have := hpos size List.mem_cons_self; omega⟩
      have hk : k + 1 < maxClusters := by
        have := hfit.clusters
        simp only [List.length_cons] at this
        omega
      have hsize := hfit.size_le (m + 1) List.mem_cons_self
      have hnow : offsets.getD (k + 1) 0 ≤ i := by
        have := hoffsets 0 (Nat.zero_le _)
        simp at this
        simp [this]
      have hnext : offsets.getD (k + 1 + 1) 0 = i + (m + 1) := by
        have := hoffsets 1 (by simp)
        simpa using this
      have hinside := @fillWorld_inside offsets m sizes.sum (i + 1) (k + 1) 1 (by omega)
      have hrest := ih (k + 1) (i + 1 + m) (1 + m) hfit.tail
        (fun other hother => hpos other (List.mem_cons_of_mem _ hother)) (by
          intro j hj
          have := hoffsets (j + 1) (by simpa using hj)
          simp only [List.take_succ_cons, List.sum_cons] at this
          rw [show k + 1 + 1 + j = k + 1 + (j + 1) by omega, this]
          omega)
      have hblock : ((List.range (m + 1)).map (setPid (k + 1))).map rowOf =
          (k + 1, 0) :: (List.range' 1 m).map (k + 1, ·) := by
        have hrow : ((List.range (m + 1)).map (setPid (k + 1))).map rowOf =
            (List.range (m + 1)).map (k + 1, ·) := by
          rw [List.map_map]
          apply List.map_congr_left
          intro r hr
          rw [List.mem_range] at hr
          simp only [Function.comp_apply, rowOf]
          rw [getClusterRank_setPid hk (by omega), getProcessRank_setPid hk (by omega)]
        rw [hrow, List.range_eq_range', List.range'_succ, List.map_cons]
      rw [List.sum_cons, show m + 1 + sizes.sum = (m + sizes.sum) + 1 by omega, fillWorld,
        if_pos hnow, hinside, hrest, membersFrom, List.map_append, hblock, List.cons_append]

/-- An entry of `cluster_offsets` counts the processes of the clusters before. -/
theorem getD_clusterOffsets (sizes : List Nat) {j : Nat} (hj : j ≤ sizes.length) :
    (clusterOffsets sizes).getD j 0 = (sizes.take j).sum := by
  have hscan : ∀ (sizes : List Nat) (o j : Nat), j ≤ sizes.length →
      (sizes.scanl (· + ·) o).getD j 0 = o + (sizes.take j).sum := by
    intro sizes
    induction sizes with
    | nil =>
        intro o j hj
        obtain rfl : j = 0 := by simpa using hj
        simp
    | cons size sizes ih =>
        intro o j hj
        cases j with
        | zero => simp
        | succ j =>
            have := ih (o + size) j (by simpa using hj)
            simp only [List.scanl_cons, List.getD_cons_succ, List.take_succ_cons,
              List.sum_cons]
            rw [this]
            omega
  rw [clusterOffsets, hscan sizes 0 j hj, Nat.zero_add]

/-- **The loop of `init_communicators`** goes over the members of the world. -/
theorem fillWorld_eq (cfg : Config) :
    fillWorld (clusterOffsets cfg.applicationSizes) cfg.applicationSizes.sum 0 0 0 =
      (worldMembers cfg).map rowOf := by
  have hfit := cfg.fit
  have hpos := cfg.size_pos
  have hoffset := @getD_clusterOffsets cfg.applicationSizes
  rw [worldMembers]
  generalize cfg.applicationSizes = sizes at hfit hpos hoffset ⊢
  cases sizes with
  | nil => rfl
  | cons size sizes =>
      have hk : 0 < maxClusters := by decide
      have hsize := hfit.size_le size List.mem_cons_self
      have hfirst := hoffset (show 1 ≤ (size :: sizes).length by simp)
      have hinside := @fillWorld_inside (clusterOffsets (size :: sizes)) size sizes.sum 0 0 0
        (by rw [hfirst]; simp)
      have hafter := @fillWorld_after (clusterOffsets (size :: sizes)) sizes 0 size size
        hfit.tail (fun other hother => hpos other (List.mem_cons_of_mem _ hother)) (by
          intro j hj
          rw [Nat.zero_add, Nat.add_comm 1 j, hoffset (by simpa using hj)]
          simp)
      have hblock : ((List.range size).map (setPid 0)).map rowOf =
          (List.range' 0 size).map (0, ·) := by
        rw [List.map_map, List.range_eq_range']
        apply List.map_congr_left
        intro r hr
        have hr' := (List.mem_range'_1.mp hr).2
        simp only [Function.comp_apply, rowOf]
        rw [getClusterRank_setPid hk (by omega), getProcessRank_setPid hk (by omega)]
      rw [List.sum_cons, hinside, membersFrom, List.map_append, hblock, Nat.zero_add,
        Nat.zero_add, hafter]

/-- A PID is put together from its ranks. -/
theorem setPid_rowOf {cfg : Config} {pid : Pid} (h : cfg.IsApplication pid) :
    setPid (getClusterRank pid) (getProcessRank pid) = pid := by
  obtain ⟨size, hsize, hlt⟩ := h
  have hcluster : getClusterRank pid < maxClusters := getClusterRank_lt pid
  have hle := cfg.fit.size_le size (List.mem_of_getElem? hsize)
  apply pid_ext
  · exact getClusterRank_setPid hcluster (by omega)
  · exact getProcessRank_setPid hcluster (by omega)

/-- The world that a client builds has the tables of the server's. -/
theorem worldCommunicator_tables (cfg : Config) (clusterRank rank : Nat) :
    (worldCommunicator cfg.applicationSizes clusterRank rank).tables =
      tablesSpec (worldMembers cfg) := by
  have htotal := getD_clusterOffsets cfg.applicationSizes (Nat.le_refl _)
  rw [List.take_length] at htotal
  have hmembers : ((worldMembers cfg).map rowOf).map (fun row => setPid row.1 row.2) =
      worldMembers cfg := by
    rw [List.map_map]
    apply (List.map_congr_left _).trans (List.map_id _)
    intro pid hpid
    exact setPid_rowOf (mem_worldMembers.mp hpid)
  have hcoordinators : ((List.range cfg.applicationSizes.length).map fun i =>
        (clusterOffsets cfg.applicationSizes).getD i 0) =
      (cfg.applicationSizes.scanl (· + ·) 0).dropLast := by
    apply List.ext_getElem
    · simp
    · intro i hi _
      have hi' : i < cfg.applicationSizes.length := by simpa using hi
      simp [clusterOffsets, List.getD_eq_getElem?_getD, List.getElem_dropLast,
        List.getElem?_eq_getElem (show i < (cfg.applicationSizes.scanl (· + ·) 0).length by
          simp; omega)]
  rw [tablesSpec_worldMembers, worldCommunicator]
  simp only [htotal, fillWorld_eq, hmembers, hcoordinators, List.map_map]
  rfl

/-- The members of the cluster of a process in the world, by process rank. -/
theorem clusterMembers_worldMembers {cfg : Config} {pid : Pid} {size : Nat}
    (hsize : cfg.applicationSizes[getClusterRank pid]? = some size) :
    clusterMembers pid (worldMembers cfg) =
      (List.range size).map (setPid (getClusterRank pid)) := by
  have hfilter := filter_membersFrom cfg.fit hsize
  rw [Nat.zero_add] at hfilter
  exact hfilter

/-- The process of a cluster with a given rank, in the local communicator of the
world. -/
theorem getElem?_clusterMembers_worldMembers {cfg : Config} {pid q : Pid}
    (hq : cfg.IsApplication q) (hcluster : getClusterRank q = getClusterRank pid) :
    (clusterMembers pid (worldMembers cfg))[getProcessRank q]? = some q := by
  obtain ⟨size, hsize, hlt⟩ := id hq
  rw [clusterMembers_worldMembers (hcluster ▸ hsize), List.getElem?_map,
    List.getElem?_range hlt, Option.map_some, ← hcluster, setPid_rowOf hq]

/-- The place of a process in the local communicator of the world. -/
theorem idxOf_clusterMembers_worldMembers {cfg : Config} {pid : Pid}
    (hpid : cfg.IsApplication pid) :
    (clusterMembers pid (worldMembers cfg)).idxOf pid = getProcessRank pid := by
  have hget := getElem?_clusterMembers_worldMembers hpid (rfl : getClusterRank pid = _)
  obtain ⟨hlt, hget⟩ := List.getElem?_eq_some_iff.mp hget
  have hnodup : (clusterMembers pid (worldMembers cfg)).Nodup :=
    (valid_worldMembers cfg).nodup.filter _
  have hidx := hnodup.idxOf_getElem _ hlt
  rwa [hget] at hidx

/-- The size of the world. -/
theorem length_worldMembers (cfg : Config) :
    (worldMembers cfg).length = cfg.applicationSizes.sum := by
  have hfill : ∀ n i k r, (fillWorld (clusterOffsets cfg.applicationSizes) n i k r).length
      = n := by
    intro n
    induction n with
    | zero => intro i k r; rfl
    | succ n ih =>
        intro i k r
        rw [fillWorld]
        split <;> simp [ih]
  have hlength := congrArg List.length (fillWorld_eq cfg)
  rw [List.length_map, hfill] at hlength
  exact hlength.symm

/-- **The world of a client** mirrors the server's. -/
theorem worldCommunicator_mirrors {cfg : Config} {pid : Pid} (hpid : cfg.IsApplication pid)
    {c : Communicator}
    (hc : c = { worldCommunicator cfg.applicationSizes (getClusterRank pid)
        (getProcessRank pid) with
      handle := 0
      myCoordinator := findCoordinator (getClusterRank pid) cfg.applicationSizes.length
        (worldCommunicator cfg.applicationSizes (getClusterRank pid)
          (getProcessRank pid)).tables }) :
    Mirrors pid 0 (worldMembers cfg) c := by
  obtain ⟨size, hsize, hlt⟩ := id hpid
  have htables := worldCommunicator_tables cfg (getClusterRank pid) (getProcessRank pid)
  have hcomm : c.comm = clusterMembers pid (worldMembers cfg) := by
    rw [clusterMembers_worldMembers hsize, hc]
    simp [worldCommunicator, List.getD_eq_getElem?_getD, hsize]
  have hplace := @getElem?_membersFrom 0 _ _ _ _ hsize hlt
  rw [Nat.zero_add, setPid_rowOf hpid] at hplace
  have hoffset := getD_clusterOffsets cfg.applicationSizes
    (Nat.le_of_lt (List.getElem?_eq_some_iff.mp hsize).1)
  have htotal := getD_clusterOffsets cfg.applicationSizes (Nat.le_refl _)
  have hcount : (tablesSpec (worldMembers cfg)).coordinators.length =
      cfg.applicationSizes.length := by
    rw [← htables]
    simp [worldCommunicator]
  refine ⟨?_, ?_, ?_, ?_, ?_, hcomm, ?_, ?_, ?_⟩
  · rw [hc]
  · rw [hc]
    exact htables
  · rw [hc]
    simp [worldCommunicator]
  · rw [hc]
    simp only [worldCommunicator, hoffset]
    exact hplace
  · rw [hc, length_worldMembers]
    simp only [worldCommunicator, htotal, List.take_length]
  · rw [hcomm, idxOf_clusterMembers_worldMembers hpid, hc]
    rfl
  · rw [hc]
    simp [worldCommunicator]
  · rw [hc, htables, ← hcount]
    exact findCoordinator_tablesSpec (mem_clustersOf (mem_worldMembers.mpr hpid))

/-- **`init_communicators`** succeeds at every application process. -/
theorem initCommunicators_mirrors {cfg : Config} {pid : Pid} (hpid : cfg.IsApplication pid) :
    ∃ p, initCommunicators cfg.applicationSizes (getClusterRank pid)
        (getProcessRank pid) = some p ∧ p.pid = pid ∧
      (∃ c, p.comms 0 = some c ∧ Mirrors pid 0 (worldMembers cfg) c) ∧
      ∀ h, 3 ≤ h → p.comms h = none := by
  refine ⟨_, by simp [initCommunicators, Process.addCommunicator, maxCommunicators]; rfl,
    setPid_rowOf hpid, ⟨_, rfl, worldCommunicator_mirrors hpid ?_⟩, ?_⟩
  · simp [worldCommunicator, Process.clusterRank, setPid_rowOf hpid]
  · intro h hh
    have h0 : h ≠ 0 := by omega
    have h1 : h ≠ 1 := by omega
    have h2 : h ≠ 2 := by omega
    simp [h0, h1, h2]

end World

section Operations

variable {pids : List Pid}

/-- A list that is in order and has the right elements is the sorted list. -/
theorem insertionSort_eq {α : Type*} {r : α → α → Prop} [DecidableRel r] [Std.Total r]
    [IsTrans α r] {l l' : List α}
    (hanti : ∀ a b, a ∈ l → b ∈ l → r a b → r b a → a = b) (hperm : l'.Perm l)
    (hsorted : l'.Pairwise r) : l.insertionSort r = l' := by
  have hsort : (l.insertionSort r).Perm l := List.perm_insertionSort r l
  refine List.Perm.eq_of_pairwise ?_ (List.pairwise_insertionSort r l) hsorted
    (hsort.trans hperm.symm)
  intro a b ha hb hab hba
  exact hanti a b (hsort.mem_iff.mp ha) (hperm.mem_iff.mp hb) hab hba

instance (comm : List Pid) (key : Pid → Int) : Std.Total (SplitLe comm key) where
  total p q := by
    unfold SplitLe
    omega

instance (comm : List Pid) (key : Pid → Int) : IsTrans Pid (SplitLe comm key) where
  trans p q r hpq hqr := by
    unfold SplitLe at hpq hqr ⊢
    omega

/-- **The local split.**  When the processes of one color pass their ranks in
the new communicator as keys, the local split yields them in the order of the
new communicator. -/
theorem pmpiCommSplit_eq {pid : Pid} {args : Pid → Int × Int} (hmembers : members.Nodup)
    (hpids : pids.Nodup) (hsub : ∀ q ∈ pids, q ∈ members)
    (hcolor : (args pid).1 ≠ mpiUndefined)
    (hset : ∀ q ∈ members, (args q).1 = (args pid).1 ↔ q ∈ pids)
    (hkey : ∀ q ∈ clusterMembers pid pids,
      (args q).2 = (clusterMembers pid pids).idxOf q) :
    pmpiCommSplit (clusterMembers pid members) args pid =
      some (clusterMembers pid pids) := by
  have hnodup : (clusterMembers pid pids).Nodup := hpids.filter _
  rw [pmpiCommSplit, if_neg hcolor]
  congr 1
  apply insertionSort_eq
  · intro a b ha _ hab hba
    have heq : (clusterMembers pid members).idxOf a =
        (clusterMembers pid members).idxOf b := by
      unfold SplitLe at hab hba
      omega
    exact (List.idxOf_inj (List.mem_filter.mp ha).1).mp heq
  · apply (List.perm_ext_iff_of_nodup hnodup ((hmembers.filter _).filter _)).mpr
    intro q
    simp only [clusterMembers, List.mem_filter, decide_eq_true_eq]
    constructor
    · rintro ⟨hq, hcluster⟩
      exact ⟨⟨hsub q hq, hcluster⟩, (hset q (hsub q hq)).mpr hq⟩
    · rintro ⟨⟨hq, hcluster⟩, hargs⟩
      exact ⟨(hset q hq).mp hargs, hcluster⟩
  · rw [List.pairwise_iff_getElem]
    intro i j hi hj hij
    left
    beta_reduce
    rw [hkey _ (List.getElem_mem hi), hkey _ (List.getElem_mem hj),
      hnodup.idxOf_getElem i hi, hnodup.idxOf_getElem j hj]
    exact Int.ofNat_lt.mpr hij

/-- Reading ranks of a group that all name a process. -/
theorem pmpiGroupIncl_eq {group : List Pid} {f : Pid → Nat}
    (h : ∀ q ∈ pids, group[f q]? = some q) : pmpiGroupIncl group (pids.map f) = some pids := by
  induction pids with
  | nil => rfl
  | cons q pids ih =>
      have hrest := ih fun q hq => h q (List.mem_cons_of_mem _ hq)
      rw [pmpiGroupIncl] at hrest
      rw [pmpiGroupIncl, List.map_cons, List.mapM_cons, h q List.mem_cons_self, hrest]
      rfl

/-- **The local create.**  `local_comm_create` yields the members of the group
in the caller's cluster, in the order of the group, if the caller is one. -/
theorem localCommCreate_eq {cfg : Server.Config} {world : Communicator}
    (hworld : p.comms 0 = some world)
    (hmirrors : Mirrors p.pid 0 (Server.worldMembers cfg) world)
    (hcomm : c.comm = clusterMembers p.pid members)
    (hgroup : ∀ q ∈ pids, cfg.IsApplication q) (hsub : ∀ q ∈ pids, q ∈ members) :
    p.localCommCreate c pids =
      some (if p.pid ∈ pids then some (clusterMembers p.pid pids) else none) := by
  have hlocal : (pids.filter fun q => getClusterRank q = p.clusterRank) =
      clusterMembers p.pid pids := rfl
  have hincl : pmpiGroupIncl world.comm ((clusterMembers p.pid pids).map getProcessRank) =
      some (clusterMembers p.pid pids) := by
    apply pmpiGroupIncl_eq
    intro q hq
    obtain ⟨hq, hcluster⟩ := List.mem_filter.mp hq
    rw [hmirrors.comm]
    exact getElem?_clusterMembers_worldMembers (hgroup q hq) (of_decide_eq_true hcluster)
  have hall : ∀ q ∈ clusterMembers p.pid pids, q ∈ c.comm := by
    intro q hq
    obtain ⟨hq, hcluster⟩ := List.mem_filter.mp hq
    rw [hcomm]
    exact List.mem_filter.mpr ⟨hsub q hq, hcluster⟩
  have hself : p.pid ∈ clusterMembers p.pid pids ↔ p.pid ∈ pids := by
    simp [clusterMembers]
  rw [Process.localCommCreate, hlocal]
  by_cases hempty : clusterMembers p.pid pids = []
  · have hnot : p.pid ∉ pids := by
      rw [← hself, hempty]
      exact List.not_mem_nil
    simp [hempty, hnot]
  · have hne : ¬ ((clusterMembers p.pid pids).map getProcessRank).length = 0 := by
      simpa using hempty
    rw [if_neg hne, hworld, Option.bind_some, hincl, Option.bind_some, pmpiCommCreate, if_pos hall]
    by_cases hmem : p.pid ∈ pids
    · rw [if_pos (hself.mpr hmem), if_pos hmem]
    · rw [if_neg (fun h => hmem (hself.mp h)), if_neg hmem]

end Operations

end EsalsaMpi
