import EsalsaMpi.Startup.Configuration

/-!
# The PIDs of a run

A process of a cluster makes its PID of the rank of the cluster and of its own MPI rank,
and the server makes the PIDs of all processes the same way, in the signed numbers of
Java.  With eight bits for the one and 24 for the other, the PIDs tell all processes apart
if and only if every cluster has `MAX_PROCESSES_PER_CLUSTER` processes at most, with its
gateways (`Startup.Configuration.pidsIdentify_iff`).  What is checked is only the number
of the application processes.
-/

namespace EsalsaMpi

/-- `server_pid`. -/
def serverPid : Pid := 0xFFFFFFFF

namespace Java

/-- `Server.getPID`; `none` is an exception. -/
def getPID (clusterRank processRank : Nat) : Option Int32 :=
  if maxClusters < clusterRank then none
  else if maxProcessesPerCluster < processRank then none
  else some (((Int32.ofNat clusterRank &&& 0xFF) <<< 24) |||
    (Int32.ofNat processRank &&& 0xFFFFFF))

/-- `Communicator.getClusterRank`. -/
def getClusterRank (pid : Int32) : Int32 := ((pid &&& 0xFF000000) >>> 24) &&& 0xFF

/-- `Communicator.getProcessRank`. -/
def getProcessRank (pid : Int32) : Int32 := pid &&& 0xFFFFFF

/-- The PIDs of the server have the bits of those of the clients. -/
theorem getPID_eq {k r : Nat} (hk : k ≤ maxClusters) (hr : r ≤ maxProcessesPerCluster) :
    getPID k r = some (setPid k r).toInt32 := by
  rw [getPID, if_neg hk.not_gt, if_neg hr.not_gt]
  rfl

/-- The mask takes away what the signed shift has put in front. -/
theorem toUInt32_getClusterRank (pid : Int32) :
    (getClusterRank pid).toUInt32 = (pid.toUInt32 &&& 0xFF000000) >>> 24 := by
  apply UInt32.eq_of_toBitVec_eq
  show ((pid.toBitVec &&& 0xFF000000#32).sshiftRight 24) &&& 0xFF#32 =
    (pid.toBitVec &&& 0xFF000000#32) >>> 24
  generalize pid.toBitVec = x
  have hmask : ∀ i, (h : i < 32) → (0xFF#32)[i] = decide (i < 8) := by decide
  apply BitVec.eq_of_getElem_eq
  intro i hi
  by_cases hlow : i < 8
  · have hin : 24 + i < 32 := by omega
    simp [BitVec.getElem_and, BitVec.getElem_sshiftRight, BitVec.getElem_ushiftRight, hmask, hlow,
      hin]
  · have hout := BitVec.getLsbD_of_ge x (24 + i) (by omega)
    simp [BitVec.getElem_and, BitVec.getElem_ushiftRight, hmask, hlow, hout]

/-- An `int` without the sign bit. -/
theorem toInt_eq {x : Int32} {n : Nat} (h : x.toUInt32.toNat = n) (hn : n < 2 ^ 31) :
    x.toInt = n := by
  have hx : x.toBitVec.toNat = n := h
  show x.toBitVec.toInt = n
  rw [BitVec.toInt_eq_toNat_of_lt (by omega), hx]

theorem getClusterRank_toInt32 (pid : Pid) :
    (getClusterRank pid.toInt32).toInt = EsalsaMpi.getClusterRank pid := by
  have hlt : EsalsaMpi.getClusterRank pid < 256 := getClusterRank_lt pid
  refine toInt_eq ?_ (by omega)
  rw [toUInt32_getClusterRank]
  rfl

theorem getProcessRank_toInt32 (pid : Pid) :
    (getProcessRank pid.toInt32).toInt = EsalsaMpi.getProcessRank pid := by
  refine toInt_eq rfl ?_
  rw [getProcessRank_eq]
  omega

end Java

namespace Startup

/-- What a process makes of its MPI rank: `gateway_rank` and `my_pid`. -/
structure Identity where
  gatewayRank : Int
  myPid : Pid
deriving DecidableEq, Repr

/-- `messaging_init`, for rank `rank` of `size` in cluster `clusterRank`. -/
def messagingInit (clusterRank localApplicationSize rank size : Nat) : Identity where
  gatewayRank := if localApplicationSize ≤ rank then (size : Int) - (rank + 1) else -1
  myPid := setPid clusterRank rank

namespace Configuration

variable {cfg : Configuration} {k r : Nat} {c : Cluster}

/-- The PID of the process with MPI rank `r` in cluster `k`. -/
def pidOf (cfg : Configuration) (k r : Nat) : Pid :=
  match cfg.clusters[k]? with
  | some c =>
    (messagingInit k c.applicationProcesses r
      (c.applicationProcesses + cfg.numberOfGatewaysPerCluster)).myPid
  | none => 0

theorem pidOf_eq (h : cfg.IsProcess k r) : cfg.pidOf k r = setPid k r := by
  obtain ⟨c, hc, _⟩ := h
  rw [pidOf, hc]
  rfl

/-- **The PIDs tell all processes apart**: the clients and the server give the same ones,
no two processes have the same one, none is that of the server, and the two ranks of a
process can be read off on both sides. -/
structure PidsIdentify (cfg : Configuration) : Prop where
  getPID : ∀ k r, cfg.IsProcess k r → Java.getPID k r = some (cfg.pidOf k r).toInt32
  injective : ∀ k r k' r', cfg.IsProcess k r → cfg.IsProcess k' r' →
    cfg.pidOf k r = cfg.pidOf k' r' → k = k' ∧ r = r'
  ne_serverPid : ∀ k r, cfg.IsProcess k r → cfg.pidOf k r ≠ serverPid
  ranks : ∀ k r, cfg.IsProcess k r →
    getClusterRank (cfg.pidOf k r) = k ∧ getProcessRank (cfg.pidOf k r) = r
  ranks_java : ∀ k r, cfg.IsProcess k r →
    (Java.getClusterRank (cfg.pidOf k r).toInt32).toInt = k ∧
      (Java.getProcessRank (cfg.pidOf k r).toInt32).toInt = r

/-- No cluster has more processes than a PID can tell apart. -/
def FitsPids (cfg : Configuration) : Prop :=
  ∀ c ∈ cfg.clusters,
    c.applicationProcesses + cfg.numberOfGatewaysPerCluster ≤ maxProcessesPerCluster

/-- The ranks of the processes are in bounds then. -/
theorem FitsPids.rank_lt (h : cfg.FitsPids) (hprocess : cfg.IsProcess k r) :
    k < maxClusters ∧ r < maxProcessesPerCluster := by
  obtain ⟨c, hc, hr⟩ := hprocess
  exact ⟨lt_of_getElem? hc, hr.trans_le (h c (List.mem_of_getElem? hc))⟩

/-- The PIDs tell all processes apart then. -/
theorem FitsPids.pidsIdentify (h : cfg.FitsPids) : cfg.PidsIdentify := by
  have hranks : ∀ k r, cfg.IsProcess k r →
      getClusterRank (cfg.pidOf k r) = k ∧ getProcessRank (cfg.pidOf k r) = r := by
    intro k r hprocess
    obtain ⟨hk, hr⟩ := h.rank_lt hprocess
    rw [pidOf_eq hprocess]
    exact ⟨getClusterRank_setPid hk hr, getProcessRank_setPid hk hr⟩
  refine ⟨?_, ?_, ?_, hranks, ?_⟩
  · intro k r hprocess
    obtain ⟨hk, hr⟩ := h.rank_lt hprocess
    rw [pidOf_eq hprocess]
    exact Java.getPID_eq hk.le hr.le
  · intro k r k' r' hprocess hprocess' heq
    obtain ⟨hcluster, hrank⟩ := hranks k r hprocess
    obtain ⟨hcluster', hrank'⟩ := hranks k' r' hprocess'
    rw [heq] at hcluster hrank
    exact ⟨hcluster.symm.trans hcluster', hrank.symm.trans hrank'⟩
  · intro k r hprocess heq
    have hserver : getClusterRank serverPid = 255 := by decide
    have hk := (hranks k r hprocess).1
    obtain ⟨c, hc, _⟩ := hprocess
    have hlt := (List.getElem?_eq_some_iff.mp hc).1
    have hcount : cfg.clusters.length < 256 := cfg.clusters_lt
    rw [heq, hserver] at hk
    omega
  · intro k r hprocess
    obtain ⟨hcluster, hrank⟩ := hranks k r hprocess
    rw [Java.getClusterRank_toInt32, Java.getProcessRank_toInt32, hcluster, hrank]
    exact ⟨rfl, rfl⟩

/-- **PIDs.**  The PIDs of a configuration tell all processes apart if and only if no
cluster has more than `MAX_PROCESSES_PER_CLUSTER` processes, with its gateways. -/
theorem pidsIdentify_iff (cfg : Configuration) : cfg.PidsIdentify ↔ cfg.FitsPids := by
  constructor
  · intro h c hc
    obtain ⟨k, hk, rfl⟩ := List.getElem_of_mem hc
    by_contra hlarge
    -- the last process of the cluster, which is its master gateway
    have hprocess : cfg.IsProcess k (cfg.clusters[k].applicationProcesses +
        cfg.numberOfGatewaysPerCluster - 1) := by
      refine ⟨_, List.getElem?_eq_getElem hk, ?_⟩
      have := cfg.gateways_pos
      omega
    have hrank := (h.ranks _ _ hprocess).2
    rw [getProcessRank_eq] at hrank
    unfold maxProcessesPerCluster at hlarge
    omega
  · exact FitsPids.pidsIdentify

/-- Two clusters, where the server and the gateways accept no more application processes
than the first one has. -/
def atTheLimit : Configuration :=
  { smallConfiguration with
    clusters := [fullCluster, smallCluster]
    one_lt_clusters := by decide
    clusters_lt := by decide }

/-- The master gateway of the first cluster has the PID of its first application
process. -/
theorem not_pidsIdentify_atTheLimit :
    (∀ k c, atTheLimit.clusters[k]? = some c → (atTheLimit.replyFor k c).accepted) ∧
      (atTheLimit.IsProcess 0 0 ∧ atTheLimit.IsProcess 0 16777216 ∧
        atTheLimit.pidOf 0 16777216 = atTheLimit.pidOf 0 0) ∧
        ¬ atTheLimit.PidsIdentify := by
  have hfirst : atTheLimit.IsProcess 0 0 := ⟨_, rfl, by decide⟩
  have hmaster : atTheLimit.IsProcess 0 16777216 := ⟨_, rfl, by decide⟩
  have hsame : atTheLimit.pidOf 0 16777216 = atTheLimit.pidOf 0 0 := by decide
  refine ⟨fun k c hc => ?_, ⟨hfirst, hmaster, hsame⟩, fun h => ?_⟩
  · have hk : k < 2 := (List.getElem?_eq_some_iff.mp hc).1
    rw [replyFor_accepted_iff hc]
    rcases (by omega : k = 0 ∨ k = 1) with rfl | rfl
    · cases hc
      decide
    · cases hc
      decide
  · have hranks := (h.injective _ _ _ _ hmaster hfirst hsame).2
    revert hranks
    decide

end Configuration

end Startup

end EsalsaMpi
