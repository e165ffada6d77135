import EsalsaMpi.Library.ProcessNetwork
import EsalsaMpi.Shutdown.Closing.Program

/-!
# Whom the replies are for

The operations that the application asks for answer application processes only (`jobs_cases`).
The replies to `FINALIZE` are for everyone, and in the queue of each cluster the last one is for
its master gateway (`exists_filter_finalizeReplies`).
-/

namespace EsalsaMpi

namespace Closing

open Server (CommunicatorRequest Reply Job)

variable {cfg : Server.Config} {order : Server.HashOrder} {k k' : Nat} {g : Pid}

/-! ### The processes of a cluster -/

theorem applicationSize_eq (hk : k < cfg.numberOfClusters) :
    cfg.applicationSizes[k]? = some (applicationSize cfg k) := by
  have hlt : k < cfg.applicationSizes.length := hk
  rw [applicationSize, List.getD_eq_getElem _ _ hlt]
  exact List.getElem?_eq_getElem hlt

/-- The ranks of the processes of a cluster are in bounds. -/
theorem bounds (hk : k < cfg.numberOfClusters) :
    k < maxClusters ∧
      applicationSize cfg k + cfg.numberOfGatewaysPerCluster ≤ maxProcessesPerCluster := by
  have hclusters := cfg.clusters_lt
  have hlt : k < cfg.applicationSizes.length := hk
  exact ⟨hlt.trans hclusters, cfg.size_le _ (List.mem_of_getElem? (applicationSize_eq hk))⟩

theorem mem_gateways : g ∈ gateways cfg k ↔
    ∃ j < cfg.numberOfGatewaysPerCluster, g = setPid k (applicationSize cfg k + j) := by
  rw [gateways, Server.gatewayPids, List.mem_map]
  constructor
  · rintro ⟨j, hj, heq⟩
    exact ⟨j, List.mem_range.mp hj, heq.symm⟩
  · rintro ⟨j, hj, heq⟩
    exact ⟨j, List.mem_range.mpr hj, heq.symm⟩

theorem master_mem (k : Nat) : master cfg k ∈ gateways cfg k := by
  have hpos := cfg.gateways_pos
  refine mem_gateways.mpr ⟨cfg.numberOfGatewaysPerCluster - 1, by omega, ?_⟩
  rw [master]
  congr 1
  omega

theorem getClusterRank_gateway (hk : k < cfg.numberOfClusters) (hg : g ∈ gateways cfg k) :
    getClusterRank g = k := by
  obtain ⟨j, hj, rfl⟩ := mem_gateways.mp hg
  obtain ⟨hlt, hsize⟩ := bounds hk
  exact getClusterRank_setPid hlt (by omega)

theorem getClusterRank_master (hk : k < cfg.numberOfClusters) :
    getClusterRank (master cfg k) = k := getClusterRank_gateway hk (master_mem k)

/-- A gateway belongs to one cluster. -/
theorem gateway_unique (hk : k < cfg.numberOfClusters) (hk' : k' < cfg.numberOfClusters)
    (hg : g ∈ gateways cfg k) (hg' : g ∈ gateways cfg k') : k = k' :=
  (getClusterRank_gateway hk hg).symm.trans (getClusterRank_gateway hk' hg')

/-- Gateways are numbered behind the application processes. -/
theorem not_isApplication_gateway (hk : k < cfg.numberOfClusters) (hg : g ∈ gateways cfg k) :
    ¬ cfg.IsApplication g := by
  rintro ⟨size, hsize, hlt⟩
  obtain ⟨j, hj, rfl⟩ := mem_gateways.mp hg
  obtain ⟨hcluster, hprocesses⟩ := bounds hk
  rw [getClusterRank_setPid hcluster (by omega), applicationSize_eq hk] at hsize
  rw [getProcessRank_setPid hcluster (by omega)] at hlt
  cases hsize
  omega

theorem ne_master (hk : k < cfg.numberOfClusters) {pid : Pid} (hpid : cfg.IsApplication pid) :
    pid ≠ master cfg k := by
  rintro rfl
  exact not_isApplication_gateway hk (master_mem k) hpid

/-- The master gateway is the last of its cluster. -/
theorem exists_gateways_eq (hk : k < cfg.numberOfClusters) :
    ∃ others, gateways cfg k = others ++ [master cfg k] ∧ master cfg k ∉ others := by
  obtain ⟨n, hn⟩ : ∃ n, cfg.numberOfGatewaysPerCluster = n + 1 :=
    ⟨cfg.numberOfGatewaysPerCluster - 1, by have := cfg.gateways_pos; omega⟩
  have hmaster : master cfg k = setPid k (applicationSize cfg k + n) := by
    rw [master, hn]
    rfl
  refine ⟨(List.range n).map fun j => setPid k (applicationSize cfg k + j), ?_, ?_⟩
  · rw [gateways, Server.gatewayPids, hn, List.range_succ, List.map_append, hmaster]
    rfl
  · intro hmem
    obtain ⟨j, hj, heq⟩ := List.mem_map.mp hmem
    have hlt := List.mem_range.mp hj
    obtain ⟨hcluster, hsize⟩ := bounds hk
    have hrank := congrArg getProcessRank heq
    rw [hmaster, getProcessRank_setPid hcluster (by omega),
      getProcessRank_setPid hcluster (by omega)] at hrank
    omega

/-! ### The replies to `FINALIZE` -/

/-- What `processFinalize` sends. -/
def finalizeReplies (cfg : Server.Config) : List Reply :=
  ((Server.worldMembers cfg ++ cfg.gateways).map fun pid => ⟨pid, .finalize⟩)

/-- The gateways, cluster by cluster. -/
theorem config_gateways_eq :
    cfg.gateways = (List.range cfg.numberOfClusters).flatMap (gateways cfg) := by
  rw [Server.Config.gateways, List.flatMap_def]
  congr 1
  apply List.ext_getElem
  · simp [Server.Config.numberOfClusters]
  · intro i hi _
    have hlt : i < cfg.applicationSizes.length := by simpa using hi
    simp [gateways, applicationSize, hlt]

theorem filter_config_gateways (hk : k < cfg.numberOfClusters) :
    cfg.gateways.filter (fun g => getClusterRank g = k) = gateways cfg k := by
  rw [config_gateways_eq, List.filter_flatMap, ProcessNetwork.flatMap_range_single k, if_pos hk]
  · apply List.filter_eq_self.mpr
    intro g hg
    exact decide_eq_true (getClusterRank_gateway hk hg)
  · intro i hi hik
    apply List.filter_eq_nil_iff.mpr
    intro g hg
    have hcluster := getClusterRank_gateway hi hg
    simpa [hcluster] using hik

/-- All replies to `FINALIZE` are for clusters that the server knows. -/
theorem enqueueReplies_finalizeReplies :
    Server.enqueueReplies cfg (finalizeReplies cfg) = finalizeReplies cfg := by
  apply Server.enqueueReplies_eq
  intro m hm
  obtain ⟨pid, hpid, rfl⟩ := List.mem_map.mp hm
  rcases List.mem_append.mp hpid with hpid | hpid
  · exact (Server.mem_worldMembers.mp hpid).cluster_lt
  · rw [config_gateways_eq] at hpid
    obtain ⟨i, hi, hg⟩ := List.mem_flatMap.mp hpid
    have hlt := List.mem_range.mp hi
    rw [getClusterRank_gateway hlt hg]
    exact hlt

/-- **The last reply of a cluster** is for its master gateway. -/
theorem exists_filter_finalizeReplies (hk : k < cfg.numberOfClusters) :
    ∃ l, (finalizeReplies cfg).filter (fun m => getClusterRank m.destination = k) =
        l ++ [⟨master cfg k, .finalize⟩] ∧
      ∀ m ∈ l, m.destination ≠ master cfg k ∧ m.body = .finalize := by
  obtain ⟨others, hgateways, hmaster⟩ := exists_gateways_eq hk
  refine ⟨(((Server.worldMembers cfg).filter fun pid => getClusterRank pid = k) ++ others).map
    fun pid => ⟨pid, .finalize⟩, ?_, ?_⟩
  · rw [finalizeReplies, List.filter_map]
    show ((Server.worldMembers cfg ++ cfg.gateways).filter
      fun pid => getClusterRank pid = k).map _ = _
    rw [List.filter_append, filter_config_gateways hk, hgateways, ← List.append_assoc,
      List.map_append]
    rfl
  · intro m hm
    obtain ⟨pid, hpid, rfl⟩ := List.mem_map.mp hm
    refine ⟨?_, rfl⟩
    rcases List.mem_append.mp hpid with hpid | hpid
    · exact ne_master hk (Server.mem_worldMembers.mp (List.mem_filter.mp hpid).1)
    · rintro rfl
      exact hmaster hpid

/-! ### The replies to the calls -/

/-- A job sends replies to application processes only, also in the communicators that come of
it. -/
def ForApplication (cfg : Server.Config) : Job → Prop
  | .create pids replies => (∀ pid ∈ pids, cfg.IsApplication pid) ∧
      ∀ com : Server.Communicator, com.tables.members = pids →
        ∀ m ∈ replies com, cfg.IsApplication m.destination
  | .tell replies => ∀ m ∈ replies, cfg.IsApplication m.destination
  | .free _ => False

/-- A request of the library: of an application process, for a call or for `FINALIZE`. -/
structure Proper (cfg : Server.Config) (req : CommunicatorRequest) : Prop where
  application : cfg.IsApplication req.source
  call : req.operation ≠ .finalize → isCall cfg req.operation
  finalize : req.operation = .finalize →
    req.communicator = 0 ∧ (Server.worldMembers cfg)[req.rank]? = some req.source

theorem Proper.group {req : CommunicatorRequest} (h : Proper cfg req) {pids : List Pid}
    (hop : req.operation = .group pids) : ∀ pid ∈ pids, cfg.IsApplication pid := by
  have hcall := h.call (by rw [hop]; simp)
  rw [hop] at hcall
  intro pid hpid
  exact Server.mem_worldMembers.mp (of_decide_eq_true (List.all_eq_true.mp hcall pid hpid))

theorem proper_finalizeRequest {pid : Pid} (hpid : cfg.IsApplication pid) :
    Proper cfg (finalizeRequest cfg pid) where
  application := hpid
  call h := absurd rfl h
  finalize _ := by
    refine ⟨rfl, ?_⟩
    have hmem := Server.mem_worldMembers.mpr hpid
    have hlt : (Server.worldMembers cfg).idxOf pid < (Server.worldMembers cfg).length :=
      List.idxOf_lt_length_of_mem hmem
    show (Server.worldMembers cfg)[(Server.worldMembers cfg).idxOf pid]? = some pid
    rw [List.getElem?_eq_getElem hlt, List.getElem_idxOf hlt]

section Operations

variable {c : Server.Communicator} {requests : List CommunicatorRequest}

theorem forApplication_colorJob (hmembers : ∀ pid ∈ c.tables.members, cfg.IsApplication pid)
    (hproper : ∀ m ∈ requests, Proper cfg m)
    (hranks : ∀ m ∈ requests, m.rank < c.tables.members.length) (color : Int) :
    ForApplication cfg (Server.Communicator.colorJob c.tables.members
      (requests.filterMap (·.toSplit)) color) := by
  unfold Server.Communicator.colorJob
  split
  · refine ⟨fun pid hpid => hmembers pid (Server.mem_of_mem_colorPids ?_ hpid), ?_⟩
    · intro l hl
      obtain ⟨m, hm, _, hrank, _⟩ := Server.exists_of_mem_filterMap_toSplit hl
      exact hrank ▸ hranks m hm
    · intro com hcom m hm
      have hdestination := Server.destination_mem_of_mem_splitReplies hm
      rw [hcom] at hdestination
      refine hmembers _ (Server.mem_of_mem_colorPids ?_ hdestination)
      intro l hl
      obtain ⟨m, hm, _, hrank, _⟩ := Server.exists_of_mem_filterMap_toSplit hl
      exact hrank ▸ hranks m hm
  · intro m hm
    obtain ⟨l, hl, rfl⟩ := List.mem_map.mp hm
    obtain ⟨req, hreq, hsource, _⟩ :=
      Server.exists_of_mem_filterMap_toSplit (List.mem_filter.mp hl).1
    show cfg.IsApplication l.source
    rw [hsource]
    exact (hproper req hreq).application

theorem forApplication_groupJob (hmembers : ∀ pid ∈ c.tables.members, cfg.IsApplication pid)
    {group : List Pid} (hgroup : ∀ pid ∈ group, cfg.IsApplication pid) :
    ForApplication cfg (.create group
      (Server.Communicator.groupReplies order c.tables.members group)) := by
  refine ⟨hgroup, fun com _ m hm => ?_⟩
  rcases List.mem_append.mp hm with hm | hm
  · obtain ⟨j, hj, rfl⟩ := List.mem_mapIdx.mp hm
    exact hgroup _ (List.getElem_mem hj)
  · obtain ⟨pid, hpid, rfl⟩ := List.mem_map.mp hm
    rw [(order.perm_elements _).mem_iff] at hpid
    exact hmembers pid (List.mem_eraseDups.mp (List.mem_filter.mp hpid).1)

/-- **The jobs of an operation** are for application processes, unless all requests are
`FINALIZE`.  If only some of them are, there is nothing to do. -/
theorem jobs_cases (hmembers : ∀ pid ∈ c.tables.members, cfg.IsApplication pid)
    (hproper : ∀ m ∈ requests, Proper cfg m)
    (hranks : ∀ m ∈ requests, m.rank < c.tables.members.length) :
    ((∀ job ∈ c.jobs cfg order requests, ForApplication cfg job) ∧
        ((∃ m ∈ requests, m.operation = .finalize) → c.jobs cfg order requests = [])) ∨
      ((∀ m ∈ requests, m.operation = .finalize) ∧
        c.jobs cfg order requests = c.finalizeJobs cfg) := by
  cases requests with
  | nil => exact Or.inl ⟨fun _ hjob => absurd hjob List.not_mem_nil, fun _ => rfl⟩
  | cons first others =>
      rw [Server.Communicator.jobs]
      split
      · rename_i hopcodes
        have hopcode : ∀ m ∈ first :: others, m.operation.opcode = first.operation.opcode := by
          intro m hm
          rcases List.mem_cons.mp hm with rfl | hm
          · rfl
          · exact beq_iff_eq.mp (List.all_eq_true.mp hopcodes m hm)
        have hnone : first.operation.opcode ≠ Server.Operation.finalize.opcode →
            ∀ jobs : List Job, (∃ m ∈ first :: others, m.operation = .finalize) → jobs = [] := by
          rintro hne jobs ⟨m, hm, hop⟩
          exact absurd (hop ▸ (hopcode m hm).symm) hne
        have hfirst := hproper first List.mem_cons_self
        cases hop : first.operation with
        | split color key =>
            refine Or.inl ⟨fun job hjob => ?_, hnone (by simp [hop, Server.Operation.opcode]) _⟩
            obtain ⟨color, _, rfl⟩ := List.mem_map.mp hjob
            exact forApplication_colorJob hmembers hproper hranks color
        | group pids =>
            refine Or.inl ⟨fun job hjob => ?_, hnone (by simp [hop, Server.Operation.opcode]) _⟩
            have hcast : first.toGroup = some pids := by
              simp [Server.CommunicatorRequest.toGroup, hop]
            simp only at hjob
            rw [List.filterMap_cons_some hcast, Server.Communicator.groupJobs] at hjob
            split at hjob
            · rw [List.mem_singleton] at hjob
              subst hjob
              exact forApplication_groupJob hmembers (hfirst.group hop)
            · cases hjob
        | dup =>
            refine Or.inl ⟨fun job hjob => ?_, hnone (by simp [hop, Server.Operation.opcode]) _⟩
            obtain rfl := List.mem_singleton.mp hjob
            refine ⟨hmembers, fun com _ m hm => ?_⟩
            obtain ⟨pid, hpid, rfl⟩ := List.mem_map.mp hm
            exact hmembers pid hpid
        | free =>
            have hcall := hfirst.call (by rw [hop]; simp)
            rw [hop] at hcall
            cases hcall
        | finalize =>
            refine Or.inr ⟨fun m hm => ?_, rfl⟩
            have hm' := hopcode m hm
            rw [hop] at hm'
            cases hoperation : m.operation with
            | finalize => rfl
            | _ => simp [hoperation, Server.Operation.opcode] at hm'
      · exact Or.inl ⟨fun _ hjob => absurd hjob List.not_mem_nil, fun _ => rfl⟩

end Operations

end Closing

end EsalsaMpi
