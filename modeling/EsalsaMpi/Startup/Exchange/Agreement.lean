import EsalsaMpi.Startup.Exchange.Codecs

/-!
# The agreement after the start

A launch puts a master gateway at the site of every cluster, with a name from a configuration
file or from the command line.  The masters connect in any order; the server connects every one
with the first cluster of its name, once, and refuses the others.  Then the replies and the
addresses are exchanged, and at last the tables.

The server and the gateways agree on all of this if and only if every name is given on the
command line and has a letter, the names of the clusters are different, every cluster has fewer
than `MAX_PROCESSES_PER_CLUSTER` application processes, and no gateway runs on a machine that
stores the most significant byte first and has an `unsigned long` of eight bytes
(`agrees_iff_proper`).  `read_config_file` copies the name of the server over the end of its block,
whatever the name is; and it does not look at the length of the name of the cluster, which is
copied over the end of the message.
-/

namespace EsalsaMpi

open Wire Readers Networks CommandLine

namespace Startup

/-- The gateways of a cluster: the machine they run on, the name that the master has, and the
addresses of each. -/
structure Site where
  machine : Machine
  clusterName : ClusterName
  addresses : Nat → List Ipv4
  addresses_pos : ∀ j, 0 < (addresses j).length
  addresses_lt : ∀ j, (addresses j).length < 2 ^ 31

/-- A launch: every cluster has a site, with its name.  The others are names that the server
does not need to know. -/
structure Launch (cfg : Configuration) (text : List UInt8 → String) where
  sites : Nat → Site
  named : ∀ k c, cfg.clusters[k]? = some c → text (sites k).clusterName.name = text c.name
  others : List ClusterName

namespace Launch

variable {cfg : Configuration} {text : List UInt8 → String} (launch : Launch cfg text)

/-- The names of all masters. -/
def names : List ClusterName :=
  (List.range cfg.clusters.length).map (fun k => (launch.sites k).clusterName) ++ launch.others

/-- The message of the master at site `k`. -/
def message (k : Nat) : Option (List UInt8) :=
  handshakeMessage (launch.sites k).machine.order (launch.sites k).clusterName.name

/-- The cluster that the server finds for the master at site `k`. -/
def found (k : Nat) : Option Nat := do
  let (name, _) ← receiveName (← launch.message k)
  cfg.getCluster text name

/-- `setConnection`, for masters that connect one after the other: a cluster that is connected
stays so. -/
def connect : List Nat → List Nat → List (Nat × Nat)
  | _, [] => []
  | connected, k :: order =>
    match launch.found k with
    | none => connect connected order
    | some i => if i ∈ connected then connect connected order
      else (k, i) :: connect (i :: connected) order

/-- The cluster that the master at site `k` is connected with. -/
def clusterOf (order : List Nat) (k : Nat) : Option Nat := (launch.connect [] order).lookup k

/-- The site of the master that is connected with cluster `i`. -/
def siteOf (order : List Nat) (i : Nat) : Option Nat :=
  ((launch.connect [] order).find? fun p => p.2 = i).map Prod.fst

/-- What the master at site `k` has decoded, and what is left of the reply.  The number of MPI
processes is that of the configuration. -/
def init (order : List Nat) (k : Nat) :
    Option ((HandshakeReply × List UInt32) × List UInt8) := do
  let i ← launch.clusterOf order k
  let held ← cfg.clusters[i]?
  let c ← cfg.clusters[k]?
  masterGatewayInit (launch.sites k).machine.order
    (c.applicationProcesses + cfg.numberOfGatewaysPerCluster) (cfg.sendHandshakeReply i held)

/-- The addresses that the master at site `k` sends. -/
def sent (order : List Nat) (k : Nat) : Option (List UInt8) := do
  let ((reply, _), _) ← launch.init order k
  return sendAllAddresses (launch.sites k).machine.order reply (launch.sites k).addresses

/-- What the server holds of the gateways of cluster `i`. -/
def infos (order : List Nat) (i : Nat) : Option (List HeldInfo) := do
  let k ← launch.siteOf order i
  let c ← cfg.clusters[i]?
  let (_, rest) ← receiveName (← launch.message k)
  let (infos, _) ← cfg.receiveAllGatewayInfo i c (rest ++ (← launch.sent order k))
  return infos

/-- What the server holds of all gateways, when it has heard of them all. -/
def gateways (order : List Nat) : Option (List (List HeldInfo)) :=
  (List.range cfg.clusters.length).mapM (launch.infos order)

/-- `gateway_addresses`, in gateway `g` of the cluster at site `k`. -/
def gatewayAddresses (order : List Nat) (before : Nat → Nat → UInt8) (k g : Nat) :
    Option (List TableEntry) := do
  let ((reply, _), rest) ← launch.init order k
  let (table, _) ← receiveGatewayTable (launch.sites k).machine before reply
    (rest ++ sendAllGatewayInfo (← launch.gateways order))
  gatewayTable reply table g

/-- The server selects this address for each gateway. -/
def Selects (selected : Nat → Nat → Ipv4) : Prop :=
  ∀ i c, cfg.clusters[i]? = some c → ∀ j < cfg.numberOfGatewaysPerCluster,
    selectAddress c.network c.netmask ((launch.sites i).addresses j) = some (selected i j)

/-- **The exchange agrees**, in whatever order the masters connect: every master gets as far as its
message; every name fits in it, and the server reads it; every master decodes the numbers that the server holds; and
every gateway has every other in its table. -/
structure Agrees : Prop where
  starts : ∀ n ∈ launch.names, n.source.Starts
  names : ∀ n ∈ launch.names, ∀ o, ∃ message, handshakeMessage o n.name = some message ∧
    Reads receiveName message n.name
  replies : ∀ order, order.Perm (List.range cfg.clusters.length) →
    ∀ k c, cfg.clusters[k]? = some c → ∃ reply sizes rest,
      launch.init order k = some ((reply, sizes), rest) ∧ reply.clusterRank.toNat = k ∧
        reply.clusterCount.toNat = cfg.clusters.length ∧
        reply.localApplicationSize.toNat = c.applicationProcesses ∧
        reply.gatewayCount.toNat = cfg.numberOfGatewaysPerCluster ∧
        sizes.map UInt32.toNat = cfg.sizes
  tables : ∀ selected, launch.Selects selected →
    ∀ order, order.Perm (List.range cfg.clusters.length) →
      ∀ before, ∀ k < cfg.clusters.length, ∀ g < cfg.numberOfGatewaysPerCluster,
        ∃ table, launch.gatewayAddresses order before k g = some table ∧
          ∀ i c, cfg.clusters[i]? = some c → ∀ j < cfg.numberOfGatewaysPerCluster,
            ∃ entry, table[i * cfg.numberOfGatewaysPerCluster + j]? = some entry ∧
              (launch.sites k).machine.address entry = (selected i j).bytes ∧
              entry.info.port.toNat = c.basePort + j * cfg.numberOfStreams ∧
              entry.info.streams.toNat = cfg.numberOfStreams

/-- What the handshake rests on. -/
structure ProperHandshake : Prop where
  lengths : ∀ n ∈ launch.names, 0 < n.name.length ∧ n.name.length < maxLengthClusterName
  distinct : (cfg.clusters.map fun c => text c.name).Nodup
  sizes : ∀ c ∈ cfg.clusters, c.applicationProcesses < maxProcessesPerCluster

/-- What the exchange rests on. -/
structure Proper : Prop where
  commandLine : ∀ n ∈ launch.names, ∃ argument, n.source = .commandLine argument
  letters : ∀ n ∈ launch.names, 0 < n.name.length
  distinct : (cfg.clusters.map fun c => text c.name).Nodup
  sizes : ∀ c ∈ cfg.clusters, c.applicationProcesses < maxProcessesPerCluster
  machines : (∃ selected, launch.Selects selected) → ∀ k < cfg.clusters.length,
    (launch.sites k).machine.order = .little ∨ (launch.sites k).machine.wideLong = false

/-- What the server holds of gateway `j` in cluster `i`. -/
def held (cfg : Configuration) (selected : Nat → Nat → Ipv4) (i j : Nat) : HeldInfo where
  address := selected i j
  info := match cfg.clusters[i]? with
    | none => ⟨0, 0⟩
    | some c => cfg.gatewayInfo c j

variable {launch} {order connected : List Nat} {i k : Nat} {c : Cluster}

theorem mem_names (hk : k < cfg.clusters.length) :
    (launch.sites k).clusterName ∈ launch.names :=
  List.mem_append_left _ (List.mem_map.mpr ⟨k, List.mem_range.mpr hk, rfl⟩)

/-! ## Who is connected with whom -/

/-- **A name that is the cluster's alone** is found. -/
theorem getCluster_eq_some_iff (hc : cfg.clusters[k]? = some c) {name : List UInt8}
    (hname : text name = text c.name) :
    cfg.getCluster text name = some k ↔
      ∀ (j : Nat) (c' : Cluster), j < k → cfg.clusters[j]? = some c' → text c'.name ≠ text c.name := by
  obtain ⟨hk, rfl⟩ := List.getElem?_eq_some_iff.mp hc
  rw [Configuration.getCluster, List.findIdx?_eq_some_iff_getElem]
  constructor
  · rintro ⟨_, -, hother⟩ j c' hj hc'
    obtain ⟨hlt, rfl⟩ := List.getElem?_eq_some_iff.mp hc'
    simpa [hname] using hother j hj
  · intro hother
    refine ⟨hk, by simp [hname], fun j hj => ?_⟩
    simpa [hname] using hother j _ hj (List.getElem?_eq_getElem (hj.trans hk))

/-- The names are different if every cluster is found by its name. -/
theorem distinct_iff :
    (cfg.clusters.map fun c => text c.name).Nodup ↔
      ∀ (k : Nat) (c : Cluster), cfg.clusters[k]? = some c → ∀ (j : Nat) (c' : Cluster), j < k →
        cfg.clusters[j]? = some c' → text c'.name ≠ text c.name := by
  rw [List.Nodup, List.pairwise_map, List.pairwise_iff_getElem]
  constructor
  · intro h k c hc j c' hj hc'
    obtain ⟨hk, rfl⟩ := List.getElem?_eq_some_iff.mp hc
    obtain ⟨hj', rfl⟩ := List.getElem?_eq_some_iff.mp hc'
    exact h j k hj' hk hj
  · intro h j k hj hk hlt
    exact h k _ (List.getElem?_eq_getElem hk) j _ hlt (List.getElem?_eq_getElem hj)

theorem held_eq {selected : Nat → Nat → Ipv4} (hc : cfg.clusters[i]? = some c) {j : Nat} :
    held cfg selected i j = ⟨selected i j, cfg.gatewayInfo c j⟩ := by
  rw [held, hc]

/-- What the server reads of a message that fits. -/
theorem receiveName_message (hpos : 0 < (launch.sites k).clusterName.name.length)
    (hlt : (launch.sites k).clusterName.name.length < maxLengthClusterName) :
    ∃ message, launch.message k = some message ∧
      receiveName message = some ((launch.sites k).clusterName.name, []) :=
  ⟨_, handshakeMessage_of_lt hlt, (reads_receiveName hpos (Nat.le_of_lt hlt)).all⟩

/-- The server looks up what it has read. -/
theorem found_eq (hpos : 0 < (launch.sites k).clusterName.name.length)
    (hlt : (launch.sites k).clusterName.name.length < maxLengthClusterName) :
    launch.found k = cfg.getCluster text (launch.sites k).clusterName.name := by
  obtain ⟨message, hmessage, hname⟩ := receiveName_message hpos hlt
  rw [found, hmessage, Option.bind_eq_bind, Option.bind_some, hname]
  rfl

/-- A connection is with a cluster that has been found. -/
theorem found_of_mem_connect (h : (k, i) ∈ launch.connect connected order) :
    launch.found k = some i := by
  induction order generalizing connected with
  | nil => cases h
  | cons k' order ih =>
      rw [connect] at h
      split at h
      · exact ih h
      · next i' hfound =>
        split at h
        · exact ih h
        · rcases List.mem_cons.mp h with heq | h
          · obtain ⟨rfl, rfl⟩ := Prod.mk.inj heq
            exact hfound
          · exact ih h

/-- **Every master is connected** with the cluster that it finds, if no two find the same. -/
theorem connect_eq (hfound : ∀ k ∈ order, launch.found k = some k) (hnodup : order.Nodup)
    (hnew : ∀ k ∈ order, k ∉ connected) :
    launch.connect connected order = order.map fun k => (k, k) := by
  induction order generalizing connected with
  | nil => rfl
  | cons k order ih =>
      obtain ⟨hk, hnodup⟩ := List.nodup_cons.mp hnodup
      rw [connect, hfound k List.mem_cons_self]
      simp only [if_neg (hnew k List.mem_cons_self), List.map_cons]
      rw [ih (fun j hj => hfound j (List.mem_cons_of_mem k hj)) hnodup fun j hj hmem => ?_]
      rcases List.mem_cons.mp hmem with rfl | hmem
      · exact hk hj
      · exact hnew j (List.mem_cons_of_mem k hj) hmem

theorem found_of_clusterOf (h : launch.clusterOf order k = some i) :
    launch.found k = some i := by
  obtain ⟨before, after, hconnect, -⟩ := List.lookup_eq_some_iff.mp h
  have hmem : (k, i) ∈ launch.connect [] order := by
    rw [hconnect]
    simp
  exact found_of_mem_connect hmem

/-! ## The exchange -/

variable (h : launch.ProperHandshake)
include h

theorem ProperHandshake.found_self (hc : cfg.clusters[k]? = some c) :
    launch.found k = some k := by
  obtain ⟨hpos, hlt⟩ := h.lengths _ (mem_names (List.getElem?_eq_some_iff.mp hc).1)
  rw [found_eq hpos hlt]
  exact (getCluster_eq_some_iff hc (launch.named k c hc)).mpr (distinct_iff.mp h.distinct k c hc)

variable (horder : order.Perm (List.range cfg.clusters.length))
include horder

theorem ProperHandshake.connect_self :
    launch.connect [] order = order.map fun k => (k, k) := by
  refine connect_eq (fun k hk => ?_) (horder.nodup_iff.mpr List.nodup_range) (by simp)
  have hk := List.mem_range.mp (horder.mem_iff.mp hk)
  exact h.found_self (List.getElem?_eq_getElem hk)

theorem ProperHandshake.clusterOf_self (hk : k < cfg.clusters.length) :
    launch.clusterOf order k = some k := by
  rw [clusterOf, h.connect_self horder]
  exact lookup_map_of_mem id (horder.mem_iff.mpr (List.mem_range.mpr hk))

theorem ProperHandshake.siteOf_self (hi : i < cfg.clusters.length) :
    launch.siteOf order i = some i := by
  have hmem := horder.mem_iff.mpr (List.mem_range.mpr hi)
  rw [siteOf, h.connect_self horder]
  cases hfind : (order.map fun k => (k, k)).find? fun p => p.2 = i with
  | none =>
      have hnone := List.find?_eq_none.mp hfind (i, i) (List.mem_map.mpr ⟨i, hmem, rfl⟩)
      simp at hnone
  | some p =>
      have hp := List.find?_some hfind
      obtain ⟨k, -, rfl⟩ := List.mem_map.mp (List.mem_of_find?_eq_some hfind)
      simpa using hp

/-- **The master decodes** the numbers of its cluster, and nothing is left. -/
theorem ProperHandshake.init_eq (hc : cfg.clusters[k]? = some c) :
    launch.init order k = some ((cfg.replyFor k c, cfg.sizes.map UInt32.ofNat), []) := by
  obtain ⟨hk, hget⟩ := List.getElem?_eq_some_iff.mp hc
  have hinit := (reads_masterGatewayInit (o := (launch.sites k).machine.order) hc
    (h.sizes c (hget ▸ List.getElem_mem hk))).all
  rw [init, h.clusterOf_self horder hk]
  simp only [Option.bind_eq_bind, Option.bind_some, hc]
  exact hinit

theorem ProperHandshake.sent_eq (hc : cfg.clusters[k]? = some c) :
    launch.sent order k = some (sendAllAddresses (launch.sites k).machine.order
      (cfg.replyFor k c) (launch.sites k).addresses) := by
  rw [sent, h.init_eq horder hc]
  rfl

/-- **The server holds the selected addresses** with the ports. -/
theorem ProperHandshake.infos_eq {selected : Nat → Nat → Ipv4} (hselects : launch.Selects selected)
    (hi : i < cfg.clusters.length) :
    launch.infos order i =
      some ((List.range cfg.numberOfGatewaysPerCluster).map (held cfg selected i)) := by
  have hc := List.getElem?_eq_getElem hi
  have hsent := h.sent_eq horder hc
  have hcount : (cfg.replyFor i cfg.clusters[i]).gatewayCount.toNat =
      cfg.numberOfGatewaysPerCluster := toNat_ofNat (by have := cfg.gateways_lt; omega)
  obtain ⟨hpos, hlt⟩ := h.lengths _ (mem_names hi)
  obtain ⟨message, hmessage, hname⟩ := receiveName_message hpos hlt
  have hreads := (reads_receiveAllGatewayInfo (o := (launch.sites i).machine.order) rfl hcount
    (launch.sites i).addresses_pos (launch.sites i).addresses_lt (hselects i _ hc)).all
  rw [infos, h.siteOf_self horder hi]
  simp only [Option.bind_eq_bind, Option.bind_some, hc, hmessage, hname, hsent, List.nil_append]
  rw [hreads]
  exact congrArg (fun f => some ((List.range cfg.numberOfGatewaysPerCluster).map f))
    (funext fun j => (held_eq hc).symm)

theorem ProperHandshake.gateways_eq {selected : Nat → Nat → Ipv4}
    (hselects : launch.Selects selected) :
    launch.gateways order = some ((List.range cfg.clusters.length).map fun i =>
      (List.range cfg.numberOfGatewaysPerCluster).map (held cfg selected i)) := by
  have hinfos : ∀ i < ((List.range cfg.clusters.length).map fun i =>
      (List.range cfg.numberOfGatewaysPerCluster).map (held cfg selected i)).length,
        launch.infos order i = ((List.range cfg.clusters.length).map fun i =>
          (List.range cfg.numberOfGatewaysPerCluster).map (held cfg selected i))[i]? := by
    intro i hi
    rw [List.length_map, List.length_range] at hi
    rw [h.infos_eq horder hselects hi, List.getElem?_map, List.getElem?_range hi]
    rfl
  have hall := mapM_range_eq_some hinfos
  rwa [List.length_map, List.length_range] at hall

/-- **Every gateway has the table.** -/
theorem ProperHandshake.exists_table {selected : Nat → Nat → Ipv4}
    (hselects : launch.Selects selected)
    (hports : ∀ c ∈ cfg.clusters, ∀ j < cfg.numberOfGatewaysPerCluster,
      c.basePort + j * cfg.numberOfStreams < 2 ^ 16)
    (before : Nat → Nat → UInt8) (hk : k < cfg.clusters.length) :
    ∃ table, (∀ g < cfg.numberOfGatewaysPerCluster,
        launch.gatewayAddresses order before k g = some table) ∧
      ∀ i < cfg.clusters.length, ∀ j < cfg.numberOfGatewaysPerCluster,
        table[i * cfg.numberOfGatewaysPerCluster + j]? = some ((held cfg selected i j).entry
          (launch.sites k).machine (before (i * cfg.numberOfGatewaysPerCluster + j))) := by
  have hc := List.getElem?_eq_getElem hk
  have hn : cfg.clusters.length < 256 := cfg.clusters_lt
  have hcount : (cfg.replyFor k cfg.clusters[k]).clusterCount.toNat = cfg.clusters.length :=
    toNat_ofNat (by omega)
  have hgateways : (cfg.replyFor k cfg.clusters[k]).gatewayCount.toNat =
      cfg.numberOfGatewaysPerCluster := toNat_ofNat (by have := cfg.gateways_lt; omega)
  have hsmall : cfg.clusters.length * cfg.numberOfGatewaysPerCluster < 2 ^ 32 := by
    have hlast := hports _ (List.getElem_mem hk) (cfg.numberOfGatewaysPerCluster - 1)
      (Nat.sub_lt cfg.gateways_pos Nat.one_pos)
    have hle := Nat.le_mul_of_pos_right (cfg.numberOfGatewaysPerCluster - 1) cfg.streams_pos
    calc cfg.clusters.length * cfg.numberOfGatewaysPerCluster
        ≤ 256 * 2 ^ 16 := Nat.mul_le_mul (by omega) (by omega)
      _ < 2 ^ 32 := by decide
  obtain ⟨table, htable, hentries⟩ := reads_receiveGatewayTable (m := (launch.sites k).machine)
    before (held cfg selected) hcount hgateways hsmall
  refine ⟨table, fun g hg => ?_, hentries⟩
  rw [gatewayAddresses, h.init_eq horder hc]
  simp only [Option.bind_eq_bind, Option.bind_some, h.gateways_eq horder hselects, List.nil_append,
    htable.all]
  exact gatewayTable_eq (hgateways ▸ hg)

omit h horder

/-! ## The agreement -/

/-- **A name arrives** if it has a letter and is shorter than `MAX_LENGTH_CLUSTER_NAME`. -/
theorem name_arrives_iff (name : List UInt8) :
    (∀ o, ∃ message, handshakeMessage o name = some message ∧ Reads receiveName message name) ↔
      0 < name.length ∧ name.length < maxLengthClusterName := by
  constructor
  · intro h
    obtain ⟨message, hmessage, hreads⟩ := h .little
    obtain ⟨hlt, rfl⟩ := handshakeMessage_eq_some_iff.mp hmessage
    refine ⟨List.length_pos_iff.mpr fun hnil => ?_, hlt⟩
    subst hnil
    exact absurd (receiveName_nil.symm.trans hreads.all) (by simp)
  · rintro ⟨hpos, hlt⟩ o
    exact ⟨_, handshakeMessage_of_lt hlt, reads_receiveName hpos (Nat.le_of_lt hlt)⟩

/-- The numbers in the table, below `2^16`. -/
theorem entry_info {m : Machine} {before : Nat → UInt8} {selected : Nat → Nat → Ipv4} {j : Nat}
    (hc : cfg.clusters[i]? = some c) (hport : c.basePort + j * cfg.numberOfStreams < 2 ^ 16)
    (hstreams : cfg.numberOfStreams < 2 ^ 16) :
    ((held cfg selected i j).entry m before).info.port.toNat =
        c.basePort + j * cfg.numberOfStreams ∧
      ((held cfg selected i j).entry m before).info.streams.toNat = cfg.numberOfStreams := by
  have hinfo := (receiveGateway_send .big (cfg.gatewayInfo c j)).symm.trans
    (receiveGateway_gatewayInfo .big)
  obtain ⟨hsamePort, hsameStreams⟩ := GatewayAddress.mk.inj (Option.some.inj hinfo)
  rw [held_eq hc]
  constructor
  · exact (congrArg UInt16.toNat hsamePort).trans (UInt16.toNat_ofNat_of_lt' hport)
  · exact (congrArg UInt16.toNat hsameStreams).trans (UInt16.toNat_ofNat_of_lt' hstreams)

/-- The handshake is proper if the names arrive and the replies are decoded. -/
theorem Agrees.properHandshake (h : launch.Agrees) : launch.ProperHandshake := by
  have hall := h.replies _ (List.Perm.refl _)
  have hown : ∀ k c, cfg.clusters[k]? = some c →
      launch.found k = some k ∧ c.applicationProcesses < maxProcessesPerCluster := by
    intro k c hc
    obtain ⟨reply, sizes, rest, hinit, hrank, -, hsize, -⟩ := hall k c hc
    obtain ⟨i, hi, hinit⟩ := Option.bind_eq_some_iff.mp hinit
    obtain ⟨c', hc', hinit⟩ := Option.bind_eq_some_iff.mp hinit
    obtain ⟨_, _, hinit⟩ := Option.bind_eq_some_iff.mp hinit
    rw [← List.append_nil (cfg.sendHandshakeReply i c')] at hinit
    obtain ⟨rfl, haccepted⟩ := reply_of_masterGatewayInit hinit
    have hlt := (List.getElem?_eq_some_iff.mp hc').1
    have hclusters : cfg.clusters.length < 256 := cfg.clusters_lt
    obtain rfl : i = k := (toNat_ofNat (by omega)).symm.trans hrank
    refine ⟨found_of_clusterOf hi, ?_⟩
    rw [← hsize]
    exact ((HandshakeReply.accepted_iff _).mp haccepted).2.1.2
  have hlengths : ∀ n ∈ launch.names, 0 < n.name.length ∧
      n.name.length < maxLengthClusterName := fun n hn =>
    (name_arrives_iff n.name).mp (h.names n hn)
  refine ⟨hlengths, ?_, ?_⟩
  · rw [distinct_iff]
    intro k c hc
    obtain ⟨hpos, hlt⟩ := hlengths _ (mem_names (List.getElem?_eq_some_iff.mp hc).1)
    have hfound := (hown k c hc).1
    rw [found_eq hpos hlt] at hfound
    exact (getCluster_eq_some_iff hc (launch.named k c hc)).mp hfound
  · intro c hc
    obtain ⟨k, hk⟩ := List.getElem?_of_mem hc
    exact (hown k c hk).2

/-- A name on the command line fits in its message. -/
theorem Proper.properHandshake (h : launch.Proper) : launch.ProperHandshake := by
  refine ⟨fun n hn => ⟨h.letters n hn, ?_⟩, h.distinct, h.sizes⟩
  obtain ⟨_, hsource⟩ := h.commandLine n hn
  exact n.length_lt hsource

/-- **The start-up exchange.**  If the ports and the number of streams are below `2^16`, the
server and the gateways agree if and only if the exchange is proper. -/
theorem agrees_iff_proper (launch : Launch cfg text)
    (hports : ∀ c ∈ cfg.clusters, ∀ j < cfg.numberOfGatewaysPerCluster,
      c.basePort + j * cfg.numberOfStreams < 2 ^ 16)
    (hstreams : cfg.numberOfStreams < 2 ^ 16) :
    launch.Agrees ↔ launch.Proper := by
  constructor
  · intro h
    refine ⟨fun n hn => n.starts_iff.mp (h.starts n hn),
      fun n hn => (h.properHandshake.lengths n hn).1, h.properHandshake.distinct,
      h.properHandshake.sizes, ?_⟩
    rintro ⟨selected, hselects⟩ k hk
    -- the first gateway of the first cluster is in every table
    have hfirst : 0 < cfg.clusters.length := Nat.zero_lt_of_lt cfg.one_lt_clusters
    rw [← address_entry_iff _ (held cfg selected 0 0)]
    intro before
    obtain ⟨table, hall, hentries⟩ := h.properHandshake.exists_table (List.Perm.refl _) hselects
      hports (fun _ => before) hk
    obtain ⟨table', htable', hagree⟩ := h.tables selected hselects _ (List.Perm.refl _)
      (fun _ => before) k hk 0 cfg.gateways_pos
    obtain rfl := Option.some.inj ((hall 0 cfg.gateways_pos).symm.trans htable')
    obtain ⟨entry, hentry, haddress, -⟩ := hagree 0 _ (List.getElem?_eq_getElem hfirst) 0
      cfg.gateways_pos
    obtain rfl := Option.some.inj ((hentries 0 hfirst 0 cfg.gateways_pos).symm.trans hentry)
    exact haddress
  · intro h
    have hshake := h.properHandshake
    refine ⟨fun n hn => n.starts_iff.mpr (h.commandLine n hn),
      fun n hn => (name_arrives_iff n.name).mpr (hshake.lengths n hn), ?_, ?_⟩
    · intro order horder k c hc
      obtain ⟨hk, hget⟩ := List.getElem?_eq_some_iff.mp hc
      have hclusters : cfg.clusters.length < 256 := cfg.clusters_lt
      have hgateways := cfg.gateways_lt
      have hsmall : ∀ c ∈ cfg.clusters, c.applicationProcesses < 2 ^ 32 := fun c hc =>
        Nat.lt_trans (h.sizes c hc) (by decide)
      refine ⟨_, _, _, hshake.init_eq horder hc, toNat_ofNat (by omega), toNat_ofNat (by omega),
        toNat_ofNat (hsmall c (hget ▸ List.getElem_mem hk)), toNat_ofNat (by omega), ?_⟩
      rw [Configuration.sizes, List.map_map, List.map_map]
      exact List.map_congr_left fun c hc => toNat_ofNat (hsmall c hc)
    · intro selected hselects order horder before k hk g hg
      obtain ⟨table, hall, hentries⟩ := hshake.exists_table horder hselects hports before hk
      refine ⟨table, hall g hg, fun i c hc j hj => ?_⟩
      obtain ⟨hi, hget⟩ := List.getElem?_eq_some_iff.mp hc
      obtain ⟨hport, hnumber⟩ := entry_info hc (hports c (hget ▸ List.getElem_mem hi) j hj) hstreams
      exact ⟨_, hentries i hi j hj,
        (address_entry_iff _ _).mpr (h.machines ⟨selected, hselects⟩ k hk) _, hport, hnumber⟩

/-- Two clusters with one process and one gateway each; the first has a given name. -/
def pair (name : List UInt8) (hname : name ≠ []) : Configuration where
  numberOfGatewaysPerCluster := 1
  numberOfStreams := 1
  clusters := [{ smallCluster with name := name, name_ne_nil := hname }, smallCluster]
  one_lt_clusters := smallConfiguration.one_lt_clusters
  clusters_lt := smallConfiguration.clusters_lt
  gateways_pos := Nat.one_pos
  gateways_lt := smallConfiguration.streams_lt
  streams_pos := Nat.one_pos
  streams_lt := smallConfiguration.streams_lt

/-- The string of bytes that are letters. -/
def asciiText (bytes : List UInt8) : String :=
  String.ofList (bytes.map fun b => Char.ofNat b.toNat)

/-- A machine that stores the least significant byte first, with one address. -/
def commonSite (clusterName : ClusterName) : Site where
  machine := ⟨.little, true⟩
  clusterName := clusterName
  addresses := fun _ => [⟨[10, 0, 0, 1], rfl⟩]
  addresses_pos := fun _ => Nat.one_pos
  addresses_lt := fun _ => by decide

/-- The name of the second cluster, on the command line. -/
def secondName : ClusterName := ⟨.commandLine [98], [98], by decide⟩

/-- The launch of a pair. -/
def ofPair (first : ClusterName) (hname : first.name ≠ []) :
    Launch (pair first.name hname) asciiText where
  sites := fun k => commonSite (if k = 0 then first else secondName)
  named := by
    intro k c hc
    match k with
    | 0 => cases hc; rfl
    | 1 => cases hc; rfl
    | _ + 2 => cases hc
  others := []

/-- A short name on the command line. -/
def shortName : ClusterName := ⟨.commandLine [97], [97], by decide⟩

theorem agrees_shortName : (ofPair shortName (List.cons_ne_nil _ _)).Agrees := by
  have hsource : ∀ n ∈ (ofPair shortName (List.cons_ne_nil _ _)).names,
      n = shortName ∨ n = secondName := by
    simp [names, ofPair, commonSite, pair, List.range_succ]
  refine (agrees_iff_proper _ ?_ (by decide)).mpr ⟨fun n hn => ?_, ?_, ?_, ?_,
    fun _ k _ => Or.inl rfl⟩
  · decide
  · rcases hsource n hn with hname | hname
    · exact ⟨[97], by rw [hname]; rfl⟩
    · exact ⟨[98], by rw [hname]; rfl⟩
  · decide
  · decide
  · decide

/-- A configuration file: the name of the cluster, that of the server, and the port. -/
def configFile (clusterName serverName : List UInt8) : List UInt8 :=
  clusterName ++ [10] ++ serverName ++ [10, 53, 48, 48, 48, 10]

/-- A short name in a configuration file, with a server name of 24 letters. -/
def fileName : ClusterName where
  source := .configFile (configFile [97] (List.replicate 24 115))
  name := [97]
  accepted := by decide

/-- A name of 128 letters in a configuration file. -/
def longName : ClusterName where
  source := .configFile (configFile (List.replicate 128 97) [115])
  name := List.replicate 128 97
  accepted := by decide +kernel

/-- The block for a server name of 24 letters has 23 bytes, and the message for a name of 128
letters is too long for its buffer. -/
theorem not_agrees_configFile :
    (((readConfigFile (configFile [97] (List.replicate 24 115))).bind fun p => p.1.store) = none ∧
      (ofPair fileName (List.cons_ne_nil _ _)).Selects (fun _ _ => ⟨[10, 0, 0, 1], rfl⟩) ∧
      ¬ (ofPair fileName (List.cons_ne_nil _ _)).Agrees) ∧
    (∀ o, handshakeMessage o longName.name = none) ∧
      (ofPair longName (List.cons_ne_nil _ _)).Selects (fun _ _ => ⟨[10, 0, 0, 1], rfl⟩) ∧
      ¬ (ofPair longName (List.cons_ne_nil _ _)).Agrees := by
  have hlong : ∀ o, handshakeMessage o longName.name = none := by
    intro o
    by_contra hsome
    obtain ⟨message, hmessage⟩ := Option.ne_none_iff_exists'.mp hsome
    have hlt : (List.replicate 128 (97 : UInt8)).length < 128 :=
      (handshakeMessage_eq_some_iff.mp hmessage).1
    rw [List.length_replicate] at hlt
    exact Nat.lt_irrefl _ hlt
  have hselects : ∀ (first : ClusterName) (hname : first.name ≠ []),
      (ofPair first hname).Selects fun _ _ => ⟨[10, 0, 0, 1], rfl⟩ := by
    rintro first hname i c hc j -
    match i with
    | 0 => cases hc; rfl
    | 1 => cases hc; rfl
    | _ + 2 => cases hc
  refine ⟨⟨by decide +kernel, hselects _ _, fun h => ?_⟩, hlong, hselects _ _, fun h => ?_⟩
  · obtain ⟨argument, hsource⟩ := fileName.starts_iff.mp (h.starts fileName List.mem_cons_self)
    cases hsource
  · obtain ⟨message, hmessage, -⟩ := h.names longName List.mem_cons_self .little
    rw [hlong .little] at hmessage
    cases hmessage

end Launch

end Startup

end EsalsaMpi
