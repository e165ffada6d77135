import EsalsaMpi.Library.ProcessNetwork
import EsalsaMpi.Library.Queues
import EsalsaMpi.Server.Operations
import EsalsaMpi.Startup.Pids

/-!
# The replies to `FINALIZE`

`processFinalize` goes over the members of the world and then over the gateways of each
cluster, of which it leaves the master gateway to the end: the master forwards the replies
of its cluster, and stops when it gets its own.

So the queue of a cluster gets the replies for its processes in the order of their MPI
ranks, as the last rank is that of the master gateway (`finalize_row`).
-/

namespace EsalsaMpi

namespace Shutdown

open Startup

/-- `OPCODE_FINALIZE_REPLY`. -/
def opcodeFinalizeReply : Int32 := 59

/-- `Message`: its header. -/
structure Message where
  opcode : Int32
  source : Int32
  destination : Int32
  length : Nat
deriving DecidableEq, Repr

/-- `FinalizeReply`. -/
def finalizeReply (destination : Int32) : Message where
  opcode := opcodeFinalizeReply
  source := -1
  destination := destination
  length := 16

/-- What is done before the first exception. -/
def beforeException {α : Type} : List (Option α) → List α
  | some a :: l => a :: beforeException l
  | _ => []

theorem beforeException_map_some {α : Type} (l : List α) :
    beforeException (l.map some) = l := by
  induction l with
  | nil => rfl
  | cons a l ih => rw [List.map_cons, beforeException, ih]

section Server

variable (cfg : Configuration)

/-- A loop over the clusters, with their ranks. -/
def forClusters {α : Type} (f : Nat → Cluster → List α) : List α :=
  (List.range cfg.clusters.length).flatMap fun k => (cfg.clusters[k]?).elim [] (f k)

/-- The members of `COMM_WORLD`, as `initCommWorld` makes them. -/
def worldMembers : List (Option Int32) :=
  forClusters cfg fun k c => (List.range c.applicationProcesses).map fun i => Java.getPID k i

/-- The PIDs of the gateways in the loops of `processFinalize`. -/
def gatewayPids (i : Nat) (c : Cluster) : List (Option Int32) :=
  ((List.range' 1 (cfg.numberOfGatewaysPerCluster - 1)).map fun j =>
    Java.getPID i (c.applicationProcesses + j - 1)) ++
    [Java.getPID i (c.applicationProcesses + cfg.numberOfGatewaysPerCluster - 1)]

/-- `Communicator.enqueueReply`, `Server.enqueueReply` and `Cluster.enqueue`: the queues of
the clusters then. -/
def enqueueReply (queues : Nat → List Message) (m : Message) : Nat → List Message :=
  let destinationCluster := (Java.getClusterRank m.destination).toInt
  if destinationCluster < 0 ∨ cfg.clusters.length ≤ destinationCluster then queues
  else Queues.push queues destinationCluster.toNat [m]

/-- `Communicator.processFinalize`. -/
def processFinalize (communicator : Nat) (members : List Int32)
    (queues : Nat → List Message) : Nat → List Message :=
  if communicator ≠ 0 then queues
  else
    ((beforeException (members.map some ++ forClusters cfg (gatewayPids cfg))).map
      finalizeReply).foldl (enqueueReply cfg) queues

end Server

section Gateway

/-- What a master gateway has forwarded to MPI ranks of its cluster, and whether it is
done. -/
structure Forwarding where
  sent : List (Nat × Message)
  done : Bool
deriving DecidableEq, Repr

/-- The round for a message of the loop in `forward_server_messages_to_mpi`; `none` is an
error. -/
def forwardMessage (clusterRank : Nat) (myPid : Pid) (s : Forwarding) (m : Message) :
    Option Forwarding :=
  let pid := m.destination.toUInt32
  if pid = myPid then
    if m.opcode = opcodeFinalizeReply then some { s with done := true } else none
  else if getClusterRank pid = clusterRank then
    some { s with sent := s.sent ++ [(getProcessRank pid, m)] }
  else
    none

/-- `forward_server_messages_to_mpi`, for the messages that are in the queue. -/
def forwardServerMessages (clusterRank : Nat) (myPid : Pid) (s : Forwarding)
    (queue : List Message) : Option Forwarding :=
  queue.foldlM (forwardMessage clusterRank myPid) s

end Gateway

/-! ### What is enqueued -/

section Row

variable {cfg : Configuration} {k r : Nat} {c : Cluster}

/-- The replies for the processes of a cluster, in the order of their MPI ranks. -/
def finalizeRow (cfg : Configuration) (k : Nat) : List Pid :=
  ((cfg.clusters[k]?).elim [] fun c =>
    List.range (c.applicationProcesses + cfg.numberOfGatewaysPerCluster)).map (cfg.pidOf k)

theorem forClusters_congr {α : Type} {f g : Nat → Cluster → List α}
    (h : ∀ k c, cfg.clusters[k]? = some c → f k c = g k c) :
    forClusters cfg f = forClusters cfg g := by
  apply List.flatMap_congr
  intro k _
  cases hc : cfg.clusters[k]? with
  | none => rfl
  | some c => exact h k c hc

theorem forClusters_map {α β : Type} (f : Nat → Cluster → List α) (g : α → β) :
    (forClusters cfg f).map g = forClusters cfg fun k c => (f k c).map g := by
  rw [forClusters, List.map_flatMap]
  apply List.flatMap_congr
  intro k _
  cases cfg.clusters[k]? with
  | none => rfl
  | some c => rfl

/-- The master gateway is behind the others. -/
theorem gatewayPids_eq (hfits : cfg.FitsPids) (hc : cfg.clusters[k]? = some c) :
    gatewayPids cfg k c = ((List.range cfg.numberOfGatewaysPerCluster).map fun j =>
      cfg.pidOf k (c.applicationProcesses + j)).map fun pid => some pid.toInt32 := by
  obtain ⟨g, hg⟩ : ∃ g, cfg.numberOfGatewaysPerCluster = g + 1 :=
    ⟨cfg.numberOfGatewaysPerCluster - 1, by have := cfg.gateways_pos; omega⟩
  have hpid : ∀ j ≤ g, Java.getPID k (c.applicationProcesses + j) =
      some (cfg.pidOf k (c.applicationProcesses + j)).toInt32 := fun j hj =>
    hfits.pidsIdentify.getPID k _ ⟨c, hc, by omega⟩
  have hothers : (List.range' 1 g).map
      (fun j => Java.getPID k (c.applicationProcesses + j - 1)) =
        (List.range g).map fun j =>
          some (cfg.pidOf k (c.applicationProcesses + j)).toInt32 := by
    rw [List.range'_eq_map_range, List.map_map]
    apply List.map_congr_left
    intro j hj
    have hlt := List.mem_range.mp hj
    rw [← hpid j hlt.le]
    show Java.getPID k (c.applicationProcesses + (1 + j) - 1) = _
    congr 1
    omega
  have hmaster : c.applicationProcesses + (g + 1) - 1 = c.applicationProcesses + g := by omega
  rw [gatewayPids, hg, Nat.add_sub_cancel, hothers, hmaster, hpid g le_rfl, List.map_map,
    List.range_succ, List.map_append]
  rfl

theorem worldMembers_eq (hfits : cfg.FitsPids) :
    worldMembers cfg = (forClusters cfg fun k c =>
      (List.range c.applicationProcesses).map (cfg.pidOf k)).map fun pid =>
        some pid.toInt32 := by
  rw [forClusters_map]
  apply forClusters_congr
  intro k c hc
  rw [List.map_map]
  apply List.map_congr_left
  intro i hi
  have := List.mem_range.mp hi
  exact hfits.pidsIdentify.getPID k i ⟨c, hc, by omega⟩

/-- **An enqueued reply** is in the queue of the cluster of its PID. -/
theorem foldl_enqueueReply {pids : List Pid}
    (h : ∀ pid ∈ pids, getClusterRank pid < cfg.clusters.length) (queues : Nat → List Message)
    (k : Nat) :
    (pids.map fun pid => finalizeReply pid.toInt32).foldl (enqueueReply cfg) queues k =
      queues k ++ (pids.filter fun pid => getClusterRank pid = k).map fun pid =>
        finalizeReply pid.toInt32 := by
  induction pids generalizing queues with
  | nil => simp
  | cons pid pids ih =>
      have hlt := h pid List.mem_cons_self
      have henqueue : enqueueReply cfg queues (finalizeReply pid.toInt32) =
          Queues.push queues (getClusterRank pid) [finalizeReply pid.toInt32] := by
        simp only [enqueueReply, finalizeReply, Java.getClusterRank_toInt32]
        rw [if_neg (by omega), Int.toNat_natCast]
      rw [List.map_cons, List.foldl_cons, ih (fun q hq => h q (List.mem_cons_of_mem pid hq)),
        henqueue, Queues.push_apply, List.filter_cons, List.append_assoc]
      by_cases hk : k = getClusterRank pid
      · simp [hk]
      · simp [hk, Ne.symm hk]

/-- The part of a loop over the clusters that is for one cluster. -/
theorem filter_forClusters {f : Nat → Cluster → List Pid}
    (h : ∀ k c, cfg.clusters[k]? = some c → ∀ pid ∈ f k c, getClusterRank pid = k) (k : Nat) :
    (forClusters cfg f).filter (fun pid => getClusterRank pid = k) =
      (cfg.clusters[k]?).elim [] (f k) := by
  rw [forClusters, List.filter_flatMap, ProcessNetwork.flatMap_range_single k]
  · cases hc : cfg.clusters[k]? with
    | none => simp
    | some c =>
        rw [if_pos (List.getElem?_eq_some_iff.mp hc).1]
        exact List.filter_eq_self.mpr fun pid hpid => decide_eq_true (h k c hc pid hpid)
  · intro i _ hik
    apply List.filter_eq_nil_iff.mpr
    intro pid hpid
    cases hc : cfg.clusters[i]? with
    | none =>
        rw [hc] at hpid
        cases hpid
    | some c =>
        rw [hc] at hpid
        have := h i c hc pid hpid
        simp [this, hik]

/-- **The replies to `FINALIZE`**: the queue of each cluster gets those for its processes,
in the order of their MPI ranks. -/
theorem finalize_row (hfits : cfg.FitsPids) :
    ∃ members, worldMembers cfg = members.map some ∧ ∀ queues k,
      processFinalize cfg 0 members queues k =
        queues k ++ (finalizeRow cfg k).map fun pid => finalizeReply pid.toInt32 := by
  let application : Nat → Cluster → List Pid := fun k c =>
    (List.range c.applicationProcesses).map (cfg.pidOf k)
  let gateways : Nat → Cluster → List Pid := fun k c =>
    (List.range cfg.numberOfGatewaysPerCluster).map fun j =>
      cfg.pidOf k (c.applicationProcesses + j)
  have hmembers : worldMembers cfg =
      ((forClusters cfg application).map UInt32.toInt32).map some := by
    rw [worldMembers_eq hfits, List.map_map]
    rfl
  have hgateways : forClusters cfg (gatewayPids cfg) =
      ((forClusters cfg gateways).map UInt32.toInt32).map some := by
    rw [List.map_map, forClusters_map]
    exact forClusters_congr fun k c hc => gatewayPids_eq hfits hc
  have hranks := hfits.pidsIdentify.ranks
  have happlication : ∀ k c, cfg.clusters[k]? = some c →
      ∀ pid ∈ application k c, getClusterRank pid = k := by
    intro k c hc pid hpid
    obtain ⟨i, hi, rfl⟩ := List.mem_map.mp hpid
    have := List.mem_range.mp hi
    exact (hranks k i ⟨c, hc, by omega⟩).1
  have hgateway : ∀ k c, cfg.clusters[k]? = some c →
      ∀ pid ∈ gateways k c, getClusterRank pid = k := by
    intro k c hc pid hpid
    obtain ⟨j, hj, rfl⟩ := List.mem_map.mp hpid
    have := List.mem_range.mp hj
    exact (hranks k _ ⟨c, hc, by omega⟩).1
  have hin : ∀ {f : Nat → Cluster → List Pid}, (∀ k c, cfg.clusters[k]? = some c →
      ∀ pid ∈ f k c, getClusterRank pid = k) →
        ∀ pid ∈ forClusters cfg f, getClusterRank pid < cfg.clusters.length := by
    intro f hf pid hpid
    obtain ⟨k, hk, hpid⟩ := List.mem_flatMap.mp hpid
    have hlt := List.mem_range.mp hk
    rw [List.getElem?_eq_getElem hlt] at hpid
    rwa [hf k _ (List.getElem?_eq_getElem hlt) pid hpid]
  refine ⟨_, hmembers, fun queues k => ?_⟩
  rw [processFinalize, if_neg (not_not_intro rfl), hgateways, ← List.map_append,
    beforeException_map_some, ← List.map_append, List.map_map]
  show ((forClusters cfg application ++ forClusters cfg gateways).map
    fun pid => finalizeReply pid.toInt32).foldl (enqueueReply cfg) queues k = _
  rw [foldl_enqueueReply, List.filter_append, filter_forClusters happlication,
    filter_forClusters hgateway, finalizeRow]
  · cases cfg.clusters[k]? with
    | none => rfl
    | some c =>
        simp only [Option.elim_some, application, gateways, List.range_add, List.map_append,
          List.map_map, Function.comp_def]
  · intro pid hpid
    rcases List.mem_append.mp hpid with hpid | hpid
    · exact hin happlication pid hpid
    · exact hin hgateway pid hpid

end Row

/-! ### The same among the operations of the server -/

section Operations

variable {cfg : Configuration}

/-- The configuration, where the gateways fit in the clusters. -/
def toConfig (cfg : Configuration) (hfits : cfg.FitsPids) : Server.Config where
  applicationSizes := cfg.clusters.map (·.applicationProcesses)
  numberOfGatewaysPerCluster := cfg.numberOfGatewaysPerCluster
  one_lt_clusters := by
    rw [List.length_map]
    exact cfg.one_lt_clusters
  clusters_lt := by
    rw [List.length_map]
    exact cfg.clusters_lt
  gateways_pos := cfg.gateways_pos
  size_pos size hsize := by
    obtain ⟨c, _, rfl⟩ := List.mem_map.mp hsize
    exact c.size_pos
  size_le size hsize := by
    obtain ⟨c, hc, rfl⟩ := List.mem_map.mp hsize
    exact hfits c hc

/-- Replies for clusters that the server does not know are dropped. -/
theorem foldl_enqueueReply_filter (pids : List Pid) (queues : Nat → List Message) :
    ((pids.filter fun pid => getClusterRank pid < cfg.clusters.length).map
        fun pid => finalizeReply pid.toInt32).foldl (enqueueReply cfg) queues =
      (pids.map fun pid => finalizeReply pid.toInt32).foldl (enqueueReply cfg) queues := by
  induction pids generalizing queues with
  | nil => rfl
  | cons pid pids ih =>
      rw [List.filter_cons, List.map_cons, List.foldl_cons]
      by_cases hlt : getClusterRank pid < cfg.clusters.length
      · rw [if_pos (decide_eq_true hlt), List.map_cons, List.foldl_cons, ih]
      · have hdropped : enqueueReply cfg queues (finalizeReply pid.toInt32) = queues := by
          simp only [enqueueReply, finalizeReply, Java.getClusterRank_toInt32]
          rw [if_pos (by omega)]
        rw [if_neg (by simpa using hlt), ih, hdropped]

/-- **`processFinalize`** enqueues what it tells among the operations of the server. -/
theorem processFinalize_eq_server (hfits : cfg.FitsPids) (s : Server.State)
    {c : Server.Communicator} (hnumber : c.number = 0) (queues : Nat → List Message) :
    processFinalize cfg 0 (c.tables.members.map UInt32.toInt32) queues =
      ((Server.processFinalize (toConfig cfg hfits) s c).2.map
        fun m => finalizeReply m.destination.toInt32).foldl (enqueueReply cfg) queues := by
  let gateways : List Pid := ((toConfig cfg hfits).applicationSizes.mapIdx
    fun i size => Server.gatewayPids (toConfig cfg hfits) i size).flatten
  have hgateways : forClusters cfg (gatewayPids cfg) =
      (gateways.map UInt32.toInt32).map some := by
    have hrow : forClusters cfg (fun k c =>
        (List.range cfg.numberOfGatewaysPerCluster).map fun j =>
          setPid k (c.applicationProcesses + j)) = gateways := by
      rw [forClusters, List.flatMap_def]
      congr 1
      apply List.ext_getElem
      · simp [toConfig]
      · intro k hk _
        have hlt : k < cfg.clusters.length := by simpa using hk
        simp [toConfig, Server.gatewayPids, hlt]
    rw [← hrow, List.map_map, forClusters_map]
    apply forClusters_congr
    intro k c hc
    rw [gatewayPids_eq hfits hc, List.map_map, List.map_map]
    apply List.map_congr_left
    intro j hj
    have := List.mem_range.mp hj
    show some (cfg.pidOf k (c.applicationProcesses + j)).toInt32 = _
    rw [Configuration.pidOf_eq ⟨c, hc, by omega⟩]
    rfl
  have hknown : (Server.processFinalize (toConfig cfg hfits) s c).2.map
      (fun m => finalizeReply m.destination.toInt32) =
        ((c.tables.members ++ gateways).filter
          fun pid => getClusterRank pid < cfg.clusters.length).map
            fun pid => finalizeReply pid.toInt32 := by
    have hclusters : (toConfig cfg hfits).numberOfClusters = cfg.clusters.length :=
      List.length_map _
    rw [Server.processFinalize, if_pos hnumber]
    show (Server.enqueueReplies _ _).map _ = _
    simp only [Server.enqueueReplies, List.filter_map, List.map_map, hclusters,
      Function.comp_def, Server.getClusterRank_eq_client]
    rfl
  rw [hknown, foldl_enqueueReply_filter, processFinalize, if_neg (not_not_intro rfl), hgateways,
    ← List.map_append, beforeException_map_some, ← List.map_append, List.map_map]
  rfl

end Operations

/-! ### Whom the replies reach -/

section Reaches

variable {cfg : Configuration} {k r : Nat} {c : Cluster}

theorem mem_finalizeRow {pid : Pid} :
    pid ∈ finalizeRow cfg k ↔ ∃ r, cfg.IsProcess k r ∧ pid = cfg.pidOf k r := by
  constructor
  · intro hpid
    obtain ⟨r, hr, rfl⟩ := List.mem_map.mp hpid
    cases hc : cfg.clusters[k]? with
    | none =>
        rw [hc] at hr
        cases hr
    | some c =>
        rw [hc] at hr
        exact ⟨r, ⟨c, hc, List.mem_range.mp hr⟩, rfl⟩
  · intro ⟨r, ⟨c, hc, hr⟩, heq⟩
    rw [finalizeRow, hc, heq]
    exact List.mem_map_of_mem (List.mem_range.mpr hr)

theorem nodup_finalizeRow (hfits : cfg.FitsPids) (k : Nat) : (finalizeRow cfg k).Nodup := by
  rw [finalizeRow]
  cases hc : cfg.clusters[k]? with
  | none => exact List.nodup_nil
  | some c =>
      refine List.nodup_range.map_on ?_
      intro r hr r' hr' heq
      exact (hfits.pidsIdentify.injective k r k r' ⟨c, hc, List.mem_range.mp hr⟩
        ⟨c, hc, List.mem_range.mp hr'⟩ heq).2

/-- **The master forwards the replies** for the other processes of its cluster, and is not
done before. -/
theorem forward_others (hfits : cfg.FitsPids) (hc : cfg.clusters[k]? = some c) {m n : Nat}
    (hn : n < c.applicationProcesses + cfg.numberOfGatewaysPerCluster) (hm : m ≤ n) :
    forwardServerMessages k (cfg.pidOf k n) ⟨[], false⟩
        ((List.range m).map fun r => finalizeReply (cfg.pidOf k r).toInt32) =
      some ⟨(List.range m).map fun r => (r, finalizeReply (cfg.pidOf k r).toInt32), false⟩ := by
  have hpids := hfits.pidsIdentify
  induction m with
  | zero => rfl
  | succ m ih =>
      have hprocess : cfg.IsProcess k m := ⟨c, hc, by omega⟩
      obtain ⟨hcluster, hrank⟩ := hpids.ranks k m hprocess
      have hother : cfg.pidOf k m ≠ cfg.pidOf k n := by
        intro heq
        have := (hpids.injective k m k n hprocess ⟨c, hc, hn⟩ heq).2
        omega
      have hpid : (finalizeReply (cfg.pidOf k m).toInt32).destination.toUInt32 =
          cfg.pidOf k m := rfl
      have hforward : forwardMessage k (cfg.pidOf k n)
          ⟨(List.range m).map fun r => (r, finalizeReply (cfg.pidOf k r).toInt32), false⟩
          (finalizeReply (cfg.pidOf k m).toInt32) =
            some ⟨(List.range m).map (fun r => (r, finalizeReply (cfg.pidOf k r).toInt32)) ++
              [(m, finalizeReply (cfg.pidOf k m).toInt32)], false⟩ := by
        simp only [forwardMessage, hpid, if_neg hother, hcluster, if_true, hrank]
      rw [forwardServerMessages, List.range_succ, List.map_append, List.foldlM_append,
        ← forwardServerMessages, ih (Nat.le_of_succ_le hm), List.map_append]
      simp only [List.map_cons, List.map_nil, List.foldlM_cons, List.foldlM_nil,
        Option.bind_eq_bind, Option.bind_some, hforward]
      rfl

/-- **The replies reach everyone**, where `row k` are the PIDs of those in the queue of
cluster `k`: every process of the cluster has one there and nowhere else, no one else has
one, and the master gateway has the last one, by which time it has forwarded all others. -/
structure ReachesAll (cfg : Configuration) (row : Nat → List Pid) : Prop where
  once : ∀ k r, cfg.IsProcess k r → (row k).count (cfg.pidOf k r) = 1
  own : ∀ k r k', cfg.IsProcess k r → cfg.pidOf k r ∈ row k' → k' = k
  only : ∀ k, ∀ pid ∈ row k, ∃ r, cfg.IsProcess k r ∧ pid = cfg.pidOf k r
  master : ∀ k c, cfg.clusters[k]? = some c →
    ∃ master,
      (messagingInit k c.applicationProcesses master
        (c.applicationProcesses + cfg.numberOfGatewaysPerCluster)).gatewayRank = 0 ∧
        row k = (List.range master).map (cfg.pidOf k) ++ [cfg.pidOf k master] ∧
          forwardServerMessages k (cfg.pidOf k master) ⟨[], false⟩
              ((List.range master).map fun r => finalizeReply (cfg.pidOf k r).toInt32) =
            some ⟨(List.range master).map fun r =>
              (r, finalizeReply (cfg.pidOf k r).toInt32), false⟩

theorem reachesAll_finalizeRow (hfits : cfg.FitsPids) : ReachesAll cfg (finalizeRow cfg) where
  once k r hprocess :=
    List.count_eq_one_of_mem (nodup_finalizeRow hfits k) (mem_finalizeRow.mpr ⟨r, hprocess, rfl⟩)
  own k r k' hprocess hmem := by
    obtain ⟨r', hprocess', heq⟩ := mem_finalizeRow.mp hmem
    exact (hfits.pidsIdentify.injective k r k' r' hprocess hprocess' heq).1.symm
  only _ _ hmem := mem_finalizeRow.mp hmem
  master k c hc := by
    obtain ⟨n, hn⟩ : ∃ n, c.applicationProcesses + cfg.numberOfGatewaysPerCluster = n + 1 :=
      ⟨c.applicationProcesses + cfg.numberOfGatewaysPerCluster - 1, by
        have := cfg.gateways_pos
        omega⟩
    refine ⟨n, ?_, ?_, forward_others hfits hc (by omega) le_rfl⟩
    · have hgateway : c.applicationProcesses ≤ n := by
        have := cfg.gateways_pos
        omega
      rw [messagingInit, if_pos hgateway, hn]
      push_cast
      omega
    · rw [finalizeRow, hc, Option.elim_some, hn, List.range_succ, List.map_append]
      rfl

/-- **Finalize.**  In a configuration with less than `2 ^ 24` processes in each cluster, the
processing of `FINALIZE` on the world appends the replies to the queues that reach
everyone. -/
theorem finalize_reaches_all (cfg : Configuration)
    (hsize : ∀ c ∈ cfg.clusters,
      c.applicationProcesses + cfg.numberOfGatewaysPerCluster < 2 ^ 24) :
    ∃ members, worldMembers cfg = members.map some ∧
      ∃ row, (∀ queues k, processFinalize cfg 0 members queues k =
          queues k ++ (row k).map fun pid => finalizeReply pid.toInt32) ∧ ReachesAll cfg row := by
  have hfits : cfg.FitsPids := fun c hc => (hsize c hc).le
  obtain ⟨members, hmembers, hrow⟩ := finalize_row hfits
  exact ⟨members, hmembers, finalizeRow cfg, hrow, reachesAll_finalizeRow hfits⟩

/-- Two clusters with two gateways each. -/
def twoClusters : Configuration :=
  { smallConfiguration with
    clusters :=
      [{ fullCluster with
          applicationProcesses := 3
          size_pos := by decide
          size_le := by decide }, smallCluster]
    one_lt_clusters := by decide
    clusters_lt := by decide }

theorem finalize_reaches_two :
    ∃ members, worldMembers twoClusters = members.map some ∧
      ∃ row, (∀ queues k, processFinalize twoClusters 0 members queues k =
          queues k ++ (row k).map fun pid => finalizeReply pid.toInt32) ∧
        ReachesAll twoClusters row :=
  finalize_reaches_all twoClusters (by decide)

end Reaches

end Shutdown

end EsalsaMpi
