import EsalsaMpi.Settings

/-!
# The configuration of a run

What the constructor of `Server` accepts of its configuration file, and what a master
gateway accepts of it in the reply to its handshake.  The two do not check the same: the
server lets a cluster have `MAX_PROCESSES_PER_CLUSTER` application processes, and the
gateway fewer.  Neither counts the gateways, which are MPI processes of their cluster too
and have the ranks behind the application processes.
-/

namespace EsalsaMpi

namespace Startup

/-- `Cluster`, as `readCluster` makes it.  The name is that in the file, in bytes. -/
structure Cluster where
  name : List UInt8
  applicationProcesses : Nat
  basePort : Nat
  network : List UInt8
  netmask : List UInt8
  name_ne_nil : name ≠ []
  size_pos : 0 < applicationProcesses
  size_le : applicationProcesses ≤ maxProcessesPerCluster
  port_gt : 1000 < basePort
  port_le : basePort ≤ 65535
  length_network : network.length = 4
  length_netmask : netmask.length = 4
deriving DecidableEq

/-- `Server`, as its constructor makes it.  What `Integer.parseInt` yields is an `int`. -/
structure Configuration where
  numberOfGatewaysPerCluster : Nat
  numberOfStreams : Nat
  clusters : List Cluster
  one_lt_clusters : 1 < clusters.length
  clusters_lt : clusters.length < maxClusters
  gateways_pos : 0 < numberOfGatewaysPerCluster
  gateways_lt : numberOfGatewaysPerCluster < 2 ^ 31
  streams_pos : 0 < numberOfStreams
  streams_lt : numberOfStreams < 2 ^ 31

/-- A cluster with almost all processes that a cluster can have. -/
def fullCluster : Cluster :=
  ⟨[97], 16777215, 4000, [10, 0, 0, 0], [255, 0, 0, 0], by decide, by decide, by decide,
    by decide, by decide, rfl, rfl⟩

/-- A cluster with one process. -/
def smallCluster : Cluster :=
  ⟨[98], 1, 5000, [10, 0, 0, 0], [255, 0, 0, 0], by decide, Nat.one_pos, by decide,
    by decide, by decide, rfl, rfl⟩

/-- Two of them, with two gateways each and one stream for each connection. -/
def smallConfiguration : Configuration where
  numberOfGatewaysPerCluster := 2
  numberOfStreams := 1
  clusters := [smallCluster, smallCluster]
  one_lt_clusters := by decide
  clusters_lt := by decide
  gateways_pos := Nat.zero_lt_two
  gateways_lt := by decide
  streams_pos := Nat.one_pos
  streams_lt := by decide

/-- The four numbers of a handshake reply, as `handshake` decodes them. -/
structure HandshakeReply where
  clusterRank : UInt32
  clusterCount : UInt32
  localApplicationSize : UInt32
  gatewayCount : UInt32
deriving DecidableEq, Repr

/-- The checks in `handshake`. -/
def HandshakeReply.accepted (reply : HandshakeReply) : Bool :=
  !(reply.clusterCount = 0 || maxClusters ≤ reply.clusterCount.toNat) &&
    !(reply.clusterCount ≤ reply.clusterRank) &&
      !(reply.localApplicationSize = 0 ||
        maxProcessesPerCluster ≤ reply.localApplicationSize.toNat) &&
        !(reply.gatewayCount = 0)

theorem HandshakeReply.accepted_iff (reply : HandshakeReply) :
    reply.accepted ↔
      (reply.clusterRank.toNat < reply.clusterCount.toNat ∧
        reply.clusterCount.toNat < maxClusters) ∧
        (0 < reply.localApplicationSize.toNat ∧
          reply.localApplicationSize.toNat < maxProcessesPerCluster) ∧
          0 < reply.gatewayCount.toNat := by
  have hzero : (0 : UInt32).toNat = 0 := rfl
  simp only [accepted, Bool.and_eq_true, Bool.not_eq_true', Bool.or_eq_false_iff,
    decide_eq_false_iff_not, ← UInt32.toNat_inj, UInt32.le_iff_toNat_le, hzero]
  omega

namespace Configuration

variable (cfg : Configuration) {k r : Nat} {c : Cluster}

/-- What the server holds for the master gateway of cluster `k`. -/
def replyFor (k : Nat) (c : Cluster) : HandshakeReply where
  clusterRank := UInt32.ofNat k
  clusterCount := UInt32.ofNat cfg.clusters.length
  localApplicationSize := UInt32.ofNat c.applicationProcesses
  gatewayCount := UInt32.ofNat cfg.numberOfGatewaysPerCluster

/-- There is an MPI process with rank `r` in cluster `k`: the application processes come
first, and then the gateways. -/
def IsProcess (k r : Nat) : Prop :=
  ∃ c, cfg.clusters[k]? = some c ∧
    r < c.applicationProcesses + cfg.numberOfGatewaysPerCluster

variable {cfg}

theorem lt_of_getElem? (hc : cfg.clusters[k]? = some c) : k < maxClusters :=
  (List.getElem?_eq_some_iff.mp hc).1.trans cfg.clusters_lt

/-- **The gateway accepts** what the server holds if and only if its cluster has fewer
than `MAX_PROCESSES_PER_CLUSTER` application processes. -/
theorem replyFor_accepted_iff (hc : cfg.clusters[k]? = some c) :
    (cfg.replyFor k c).accepted ↔ c.applicationProcesses < maxProcessesPerCluster := by
  have hk := (List.getElem?_eq_some_iff.mp hc).1
  have hcount : cfg.clusters.length < 256 := cfg.clusters_lt
  have hgateways := cfg.gateways_lt
  have hsize : c.applicationProcesses ≤ 16777216 := c.size_le
  have htoNat : ∀ n : Nat, n < 2 ^ 32 → (UInt32.ofNat n).toNat = n := fun n hn =>
    UInt32.toNat_ofNat_of_lt' hn
  rw [HandshakeReply.accepted_iff]
  simp only [replyFor, htoNat _ (by omega : cfg.clusters.length < 2 ^ 32),
    htoNat _ (by omega : k < 2 ^ 32), htoNat _ (by omega : c.applicationProcesses < 2 ^ 32),
    htoNat _ (by omega : cfg.numberOfGatewaysPerCluster < 2 ^ 32)]
  constructor
  · exact fun h => h.2.1.2
  · exact fun h => ⟨⟨hk, hcount⟩, ⟨c.size_pos, h⟩, cfg.gateways_pos⟩

end Configuration

end Startup

end EsalsaMpi
