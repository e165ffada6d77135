import EsalsaMpi.Library.Wire
import EsalsaMpi.Startup.Configuration
import Mathlib.Data.List.Basic

/-!
# The numbers of a configuration

The constructor of `Server` checks the numbers of the configuration file one by one.  The
server and the gateways go on with sums and products of them: the number of application
processes and the offsets of the clusters are sums of sizes in an `int`, and the port of a
stream is that of the cluster, plus the streams of the gateways before, plus the number of
the stream.  The port of the first stream travels as a `short`, and the gateways keep a fixed
number of `MAX_STREAMS` sockets for a connection.

None of these is checked, so the numbers are in range if and only if the sum of the sizes is
an `int`, the last port of every cluster is a port, and there are at most `MAX_STREAMS`
streams (`inRange_iff`).
-/

namespace EsalsaMpi

open Wire

namespace Startup

/-- `MAX_STREAMS`. -/
def maxStreams : Nat := 16

/-- What the server holds of a gateway, behind its address: `GatewayInfo`. -/
structure GatewayInfo where
  port : Int16
  streams : Int16
deriving DecidableEq

/-- What a gateway holds of another, behind its address: `gateway_address`. -/
structure GatewayAddress where
  port : UInt16
  streams : UInt16
deriving DecidableEq

/-- `DataOutputStream.writeShort`. -/
def writeShort (v : Int16) : List UInt8 :=
  [UInt8.ofNat (v.toUInt16.toNat / 2 ^ 8), UInt8.ofNat v.toUInt16.toNat]

/-- The `unsigned short` with the given bytes, the most significant one first. -/
def shortOf (a b : UInt8) : UInt16 := UInt16.ofNat (a.toNat * 2 ^ 8 + b.toNat)

/-- The `unsigned short` with the given bytes in memory. -/
def loadShort : ByteOrder → UInt8 → UInt8 → UInt16
  | .big, a, b => shortOf a b
  | .little, a, b => shortOf b a

/-- `ntohs`. -/
def ntohs : ByteOrder → UInt16 → UInt16
  | .big, w => w
  | .little, w => shortOf (UInt8.ofNat w.toNat) (UInt8.ofNat (w.toNat / 2 ^ 8))

/-- The end of `Cluster.sendGatewayInfo`. -/
def GatewayInfo.send (info : GatewayInfo) : List UInt8 :=
  writeShort info.port ++ writeShort info.streams

/-- The end of `receive_gateway`. -/
def receiveGateway (o : ByteOrder) : List UInt8 → Option GatewayAddress
  | [a, b, c, d] => some ⟨ntohs o (loadShort o a b), ntohs o (loadShort o c d)⟩
  | _ => none

/-- The port for a stream, an argument of `socket_connect` and `socket_accept`.  The sum is
an `int`, and the argument an `unsigned short`. -/
def GatewayAddress.streamPort (a : GatewayAddress) (s : Nat) : UInt16 :=
  UInt16.ofNat (a.port.toNat + s)

/-- The loop over `cluster_offsets` in `receive_cluster_sizes`. -/
def offsetsFrom (offset : Int32) : List Int32 → List Int32
  | [] => [offset]
  | size :: sizes => offset :: offsetsFrom (offset + size) sizes

namespace Configuration

variable (cfg : Configuration)

/-- The sizes of the clusters. -/
def sizes : List Nat := cfg.clusters.map Cluster.applicationProcesses

/-- `numberOfApplicationProcesses`. -/
def numberOfApplicationProcesses : Int32 :=
  cfg.sizes.foldl (fun tmp size => tmp + Int32.ofNat size) 0

/-- `cluster_offsets`, in every gateway. -/
def clusterOffsets : List Int32 := offsetsFrom 0 (cfg.sizes.map Int32.ofNat)

/-- What `receiveGatewayInfo` makes for the gateway with rank `index`. -/
def gatewayInfo (c : Cluster) (index : Nat) : GatewayInfo where
  port := (Int32.ofNat c.basePort + Int32.ofNat index * Int32.ofNat cfg.numberOfStreams).toInt16
  streams := (Int32.ofNat cfg.numberOfStreams).toInt16

/-- **The numbers are in range**: the number of application processes and the offsets are
those of the sizes, the ports of all streams are ports and are what the gateways use, and
the gateways have a socket for every stream they use. -/
structure InRange (o : ByteOrder) : Prop where
  total : cfg.numberOfApplicationProcesses.toInt = cfg.sizes.sum
  offsets : ∀ i ≤ cfg.clusters.length, ∃ offset, cfg.clusterOffsets[i]? = some offset ∧
    offset.toInt = (cfg.sizes.take i).sum
  ports : ∀ c ∈ cfg.clusters, ∀ g < cfg.numberOfGatewaysPerCluster, ∀ s < cfg.numberOfStreams,
    1 ≤ c.basePort + g * cfg.numberOfStreams + s ∧
      c.basePort + g * cfg.numberOfStreams + s ≤ 65535 ∧
      ∃ a, receiveGateway o (cfg.gatewayInfo c g).send = some a ∧
        (a.streamPort s).toNat = c.basePort + g * cfg.numberOfStreams + s
  streams : ∀ c ∈ cfg.clusters, ∀ g < cfg.numberOfGatewaysPerCluster, ∀ a,
    receiveGateway o (cfg.gatewayInfo c g).send = some a →
      ∀ s < a.streams.toNat, s < maxStreams

end Configuration

variable {cfg : Configuration} {c : Cluster} {g s : Nat} (o : ByteOrder)

/-- An `unsigned short` with its own bytes. -/
theorem shortOf_bytes (w : UInt16) :
    shortOf (UInt8.ofNat (w.toNat / 2 ^ 8)) (UInt8.ofNat w.toNat) = w := by
  have hlt := w.toNat_lt
  apply UInt16.toNat_inj.mp
  simp only [shortOf, UInt16.toNat_ofNat', UInt8.toNat_ofNat']
  omega

/-- The bytes of the `unsigned short` with given bytes. -/
theorem bytes_shortOf (a b : UInt8) :
    UInt8.ofNat ((shortOf a b).toNat / 2 ^ 8) = a ∧ UInt8.ofNat (shortOf a b).toNat = b := by
  have ha := a.toNat_lt
  have hb := b.toNat_lt
  have hshort : (shortOf a b).toNat = a.toNat * 2 ^ 8 + b.toNat :=
    UInt16.toNat_ofNat_of_lt' (by omega : a.toNat * 2 ^ 8 + b.toNat < 2 ^ 16)
  rw [hshort]
  constructor
  · apply UInt8.toNat_inj.mp
    rw [UInt8.toNat_ofNat']
    omega
  · apply UInt8.toNat_inj.mp
    rw [UInt8.toNat_ofNat']
    omega

/-- A `short` in the order of the network is the same on every machine. -/
theorem ntohs_loadShort (a b : UInt8) : ntohs o (loadShort o a b) = shortOf a b := by
  cases o with
  | big => rfl
  | little =>
      obtain ⟨hhigh, hlow⟩ := bytes_shortOf b a
      rw [loadShort, ntohs, hhigh, hlow]

/-- **A gateway receives** what the server holds of another, with its numbers unsigned. -/
theorem receiveGateway_send (info : GatewayInfo) :
    receiveGateway o info.send = some ⟨info.port.toUInt16, info.streams.toUInt16⟩ := by
  rw [GatewayInfo.send, writeShort, writeShort, List.cons_append, List.cons_append,
    List.nil_append, receiveGateway, ntohs_loadShort, ntohs_loadShort, shortOf_bytes,
    shortOf_bytes]

/-- What the gateways receive of the gateway with rank `g`. -/
theorem receiveGateway_gatewayInfo :
    receiveGateway o (cfg.gatewayInfo c g).send =
      some ⟨UInt16.ofNat (c.basePort + g * cfg.numberOfStreams),
        UInt16.ofNat cfg.numberOfStreams⟩ := by
  rw [receiveGateway_send, Configuration.gatewayInfo, ← Int32.ofNat_mul, ← Int32.ofNat_add,
    Int32.toInt16_ofNat', Int32.toInt16_ofNat', Int16.toUInt16_ofNat', Int16.toUInt16_ofNat']

/-- A sum in an `int`. -/
theorem foldl_ofNat (sizes : List Nat) (n : Nat) :
    sizes.foldl (fun tmp size => tmp + Int32.ofNat size) (Int32.ofNat n) =
      Int32.ofNat (n + sizes.sum) := by
  induction sizes generalizing n with
  | nil => rfl
  | cons size sizes ih =>
      rw [List.foldl_cons, ← Int32.ofNat_add, ih, List.sum_cons, Nat.add_assoc]

/-- The number of application processes is their sum in an `int`. -/
theorem Configuration.numberOfApplicationProcesses_eq (cfg : Configuration) :
    cfg.numberOfApplicationProcesses = Int32.ofNat cfg.sizes.sum := by
  have hsum := foldl_ofNat cfg.sizes 0
  rwa [Nat.zero_add] at hsum

/-- The offsets are sums in an `int`. -/
theorem getElem?_offsetsFrom {sizes : List Nat} {i : Nat} (hi : i ≤ sizes.length) (n : Nat) :
    (offsetsFrom (Int32.ofNat n) (sizes.map Int32.ofNat))[i]? =
      some (Int32.ofNat (n + (sizes.take i).sum)) := by
  induction sizes generalizing n i with
  | nil =>
      obtain rfl := Nat.le_zero.mp hi
      rfl
  | cons size sizes ih =>
      rw [List.map_cons, offsetsFrom]
      cases i with
      | zero => rfl
      | succ i =>
          rw [List.getElem?_cons_succ, ← Int32.ofNat_add, ih (Nat.le_of_succ_le_succ hi),
            List.take_succ_cons, List.sum_cons, Nat.add_assoc]

/-- A number is its `int` if and only if it is below `2^31`. -/
theorem toInt_ofNat_eq_iff (n : Nat) : (Int32.ofNat n).toInt = n ↔ n < 2 ^ 31 := by
  constructor
  · intro h
    have hlt := (Int32.ofNat n).toInt_lt
    omega
  · exact Int32.toInt_ofNat_of_lt

/-- The sum of the first sizes. -/
theorem sum_take_le (sizes : List Nat) (i : Nat) : (sizes.take i).sum ≤ sizes.sum := by
  have hsplit := congrArg List.sum (List.take_append_drop i sizes)
  rw [List.sum_append] at hsplit
  omega

/-- The ports of a cluster end with the last stream of the last gateway. -/
theorem ports_iff (base gateways streams : Nat) (hgateways : 0 < gateways) (hstreams : 0 < streams) :
    (∀ g < gateways, ∀ s < streams, base + g * streams + s ≤ 65535) ↔
      base + gateways * streams ≤ 65536 := by
  constructor
  · intro h
    have hlast := h (gateways - 1) (by omega) (streams - 1) (by omega)
    have hsucc : gateways * streams = (gateways - 1) * streams + streams := by
      rw [← Nat.succ_mul, Nat.succ_eq_add_one, Nat.sub_add_cancel hgateways]
    omega
  · intro h g hg s hs
    have hle : g * streams + streams ≤ gateways * streams := by
      rw [← Nat.succ_mul]
      exact Nat.mul_le_mul_right streams hg
    omega

/-- **The numbers of a configuration** are in range if and only if the clusters have fewer
than `2^31` application processes together, the ports of every cluster end at 65535 or
before, and there are at most `MAX_STREAMS` streams. -/
theorem inRange_iff (cfg : Configuration) :
    cfg.InRange o ↔
      cfg.sizes.sum < 2 ^ 31 ∧
        (∀ c ∈ cfg.clusters,
          c.basePort + cfg.numberOfGatewaysPerCluster * cfg.numberOfStreams ≤ 65536) ∧
        cfg.numberOfStreams ≤ maxStreams := by
  have hgateways := cfg.gateways_pos
  have hstreams := cfg.streams_pos
  have htotal := cfg.numberOfApplicationProcesses_eq
  -- every cluster has a gateway, so the number of streams is used
  obtain ⟨first, hfirst⟩ : ∃ first, first ∈ cfg.clusters :=
    List.exists_mem_of_length_pos (Nat.zero_lt_of_lt cfg.one_lt_clusters)
  constructor
  · intro h
    have hports : ∀ c ∈ cfg.clusters,
        c.basePort + cfg.numberOfGatewaysPerCluster * cfg.numberOfStreams ≤ 65536 := by
      intro c hc
      exact (ports_iff _ _ _ hgateways hstreams).mp fun g hg s hs => (h.ports c hc g hg s hs).2.1
    refine ⟨(toInt_ofNat_eq_iff _).mp (htotal ▸ h.total), hports, ?_⟩
    by_contra hmany
    have hsmall : cfg.numberOfStreams < 2 ^ 16 := by
      have hle := Nat.le_mul_of_pos_left cfg.numberOfStreams hgateways
      have := hports first hfirst
      have := first.port_gt
      omega
    have huse := h.streams first hfirst 0 hgateways _ (receiveGateway_gatewayInfo o) maxStreams
      (by rw [UInt16.toNat_ofNat_of_lt' hsmall]; omega)
    exact Nat.lt_irrefl _ huse
  · intro ⟨hsum, hports, hmax⟩
    refine ⟨?_, ?_, ?_, ?_⟩
    · rw [htotal]
      exact (toInt_ofNat_eq_iff _).mpr hsum
    · intro i hi
      have hle := sum_take_le cfg.sizes i
      have hoffset := getElem?_offsetsFrom
        (by rwa [Configuration.sizes, List.length_map] : i ≤ cfg.sizes.length) 0
      rw [Nat.zero_add] at hoffset
      exact ⟨_, hoffset, (toInt_ofNat_eq_iff _).mpr (by omega)⟩
    · intro c hc g hg s hs
      have hlast := (ports_iff _ _ _ hgateways hstreams).mpr (hports c hc) g hg s hs
      have hpos := c.port_gt
      refine ⟨by omega, hlast, _, receiveGateway_gatewayInfo o, ?_⟩
      rw [GatewayAddress.streamPort,
        UInt16.toNat_ofNat_of_lt' (by omega : c.basePort + g * cfg.numberOfStreams < 2 ^ 16),
        UInt16.toNat_ofNat_of_lt' (by omega : c.basePort + g * cfg.numberOfStreams + s < 2 ^ 16)]
    · intro c hc g hg a ha s hs
      rw [receiveGateway_gatewayInfo, Option.some.injEq] at ha
      subst ha
      have hsmall : cfg.numberOfStreams < 2 ^ 16 := Nat.lt_of_le_of_lt hmax (by decide)
      rw [UInt16.toNat_ofNat_of_lt' hsmall] at hs
      exact Nat.lt_of_lt_of_le hs hmax

/-- A cluster of one process with the last port. -/
def lastPort (name : UInt8) : Cluster where
  name := [name]
  applicationProcesses := 1
  basePort := 65535
  network := [10, 0, 0, 0]
  netmask := [255, 0, 0, 0]
  name_ne_nil := List.cons_ne_nil name []
  size_pos := Nat.one_pos
  size_le := smallCluster.size_le
  port_gt := by decide
  port_le := by decide
  length_network := smallCluster.length_network
  length_netmask := smallCluster.length_netmask

/-- Two clusters with two gateways each. -/
def lastPorts : Configuration :=
  { smallConfiguration with
    clusters := [lastPort 65, lastPort 66]
    one_lt_clusters := by decide
    clusters_lt := by decide }

/-- The port of a second gateway is 65536, and 0 is what the gateways receive. -/
theorem not_inRange_lastPorts :
    receiveGateway .little (lastPorts.gatewayInfo (lastPort 65) 1).send = some ⟨0, 1⟩ ∧
      ¬ lastPorts.InRange .little := by
  refine ⟨by decide, fun h => ?_⟩
  have hport := (h.ports (lastPort 65) List.mem_cons_self 1 (by decide) 0 (by decide)).2.1
  exact absurd hport (by decide)

end Startup

end EsalsaMpi
