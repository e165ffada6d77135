import EsalsaMpi.Startup.Exchange.Program
import Mathlib.Data.List.Nodup

/-!
# Readers and writers of the exchange

Every reader takes from the connection just what its writer has put there, whatever follows:
the name (`reads_receiveName`), the reply with the sizes (`reads_masterGatewayInit`), the
addresses of the gateways (`reads_receiveAllGatewayInfo`) and the table
(`reads_receiveGatewayTable`).

`handshakeMessage_eq_some_iff` says which names fit in the message, and `address_entry_iff` on
which machines the address in the table is the one that was received.
-/

namespace EsalsaMpi

open Wire Readers Networks CommandLine

namespace Startup

variable {o : ByteOrder} {cfg : Configuration} {c : Cluster} {m : Machine}

/-! ## The name -/

theorem copyTo_append (place : Nat) (before old after bytes : List UInt8)
    (hplace : before.length = place) (hlength : old.length = bytes.length) :
    copyTo (before ++ (old ++ after)) place bytes = some (before ++ bytes ++ after) := by
  subst hplace
  have hdrop : (before ++ (old ++ after)).drop (before.length + bytes.length) = after := by
    rw [← List.append_assoc, ← hlength, ← List.length_append, List.drop_left]
  rw [copyTo, if_pos (by simp only [List.length_append]; omega), List.take_left, hdrop]

/-- What `handshake` sends, in the order of the network. -/
def nameBytes (name : List UInt8) : List UInt8 :=
  toBytes opcodeHandshake ++ toBytes (UInt32.ofNat name.length) ++ name

theorem handshakeMessage_of_lt {name : List UInt8} (h : name.length < maxLengthClusterName) :
    handshakeMessage o name = some (nameBytes name) := by
  obtain ⟨left, hzeros⟩ : ∃ left, List.replicate (2 * 4 + maxLengthClusterName) (0 : UInt8) =
      List.replicate 4 0 ++ (List.replicate 4 0 ++ (List.replicate (name.length + 1) 0 ++ left)) := by
    refine ⟨List.replicate (maxLengthClusterName - (name.length + 1)) 0, ?_⟩
    simp only [List.replicate_append_replicate]
    congr 1
    omega
  have hopcode := copyTo_append 0 [] (List.replicate 4 0) (List.replicate 4 0 ++
    (List.replicate (name.length + 1) 0 ++ left)) (toBytes opcodeHandshake) rfl rfl
  have hlength := copyTo_append 4 (toBytes opcodeHandshake) (List.replicate 4 0)
    (List.replicate (name.length + 1) 0 ++ left) (toBytes (UInt32.ofNat name.length)) rfl rfl
  have hname := copyTo_append (2 * 4)
    (toBytes opcodeHandshake ++ toBytes (UInt32.ofNat name.length)) (List.replicate (name.length + 1) 0)
    left (name ++ [0]) rfl (by simp)
  rw [List.nil_append, List.nil_append] at hopcode
  show ((copyTo _ 0 (o.store (o.htonl opcodeHandshake))).bind fun message =>
    (copyTo message 4 (o.store (o.htonl (UInt32.ofNat name.length)))).bind fun message =>
      (copyTo message (2 * 4) (name ++ [0])).bind fun message =>
        some (message.take (2 * 4 + name.length))) = _
  rw [ByteOrder.store_htonl, ByteOrder.store_htonl, hzeros, hopcode, Option.bind_some, hlength,
    Option.bind_some, hname, Option.bind_some, ← List.append_assoc, List.append_assoc _ [0], nameBytes,
    List.take_left' (by simp; omega)]

theorem copyTo_eq_none {array bytes : List UInt8} {place : Nat}
    (h : array.length < place + bytes.length) : copyTo array place bytes = none :=
  if_neg (Nat.not_le.mpr h)

theorem length_of_copyTo {array bytes array' : List UInt8} {place : Nat}
    (h : copyTo array place bytes = some array') : array'.length = array.length := by
  rw [copyTo] at h
  split at h
  · next hle =>
    cases h
    simp only [List.length_append, List.length_take, List.length_drop]
    omega
  · cases h

/-- **A string is copied** into a block with room for it and its end. -/
theorem cString_copyString {size : Nat} {buffer block : List UInt8}
    (h : copyString size buffer = some block) :
    (cString buffer).length + 1 ≤ size ∧ cString block = cString buffer := by
  rw [copyString, copyTo] at h
  split at h
  · next hle =>
    cases h
    refine ⟨by simpa using hle, ?_⟩
    have hletters : ∀ b ∈ cString buffer, decide (b ≠ 0) = true :=
      List.all_eq_true.mp List.all_takeWhile
    rw [List.take_zero, List.nil_append, List.append_assoc, List.singleton_append, cString,
      List.takeWhile_append_of_pos hletters, List.takeWhile_cons_of_neg (by decide),
      List.append_nil]
  · cases h

/-- **The name of the server does not fit** in its block, which is two bytes too small for any
name. -/
theorem ConfigFile.eq_nil_of_store {config : ConfigFile} {clusterName serverName : List UInt8}
    (h : config.store = some (clusterName, serverName)) : serverName = [] := by
  obtain ⟨_, _, h⟩ := Option.bind_eq_some_iff.mp h
  obtain ⟨_, _, h⟩ := Option.bind_eq_some_iff.mp h
  obtain ⟨buffer, _, h⟩ := Option.bind_eq_some_iff.mp h
  obtain ⟨block, hblock, h⟩ := Option.bind_eq_some_iff.mp h
  obtain ⟨_, rfl⟩ := Prod.mk.inj (Option.some.inj h)
  obtain ⟨hroom, hsame⟩ := cString_copyString hblock
  rw [hsame]
  cases buffer with
  | nil => rfl
  | cons b buffer =>
      by_cases hend : b = 0
      · rw [hend]
        rfl
      · have hcons : cString (b :: buffer) = b :: cString buffer :=
          List.takeWhile_cons_of_pos (by simpa using hend)
        rw [hcons, List.length_cons, List.drop_one, List.tail_cons] at hroom
        omega

/-- **A gateway gets to the handshake** if its name is given on the command line. -/
theorem ClusterName.starts_iff (n : ClusterName) :
    n.source.Starts ↔ ∃ argument, n.source = .commandLine argument := by
  obtain ⟨source, name, haccepted⟩ := n
  cases source with
  | configFile file =>
      obtain ⟨⟨config, rest⟩, hread, _⟩ := Option.map_eq_some_iff.mp haccepted
      constructor
      · intro h
        obtain ⟨_, serverName, hstore, hname⟩ := h config rest hread
        exact absurd (ConfigFile.eq_nil_of_store hstore) hname
      · rintro ⟨argument, hsource⟩
        cases hsource
  | commandLine argument => exact ⟨fun _ => ⟨argument, rfl⟩, fun _ => trivial⟩

/-- A name on the command line is short. -/
theorem ClusterName.length_lt (n : ClusterName) {argument : List UInt8}
    (h : n.source = .commandLine argument) : n.name.length < maxLengthClusterName := by
  have haccepted := n.accepted
  rw [h, NameSource.name] at haccepted
  split at haccepted
  · cases haccepted
  · next hlt =>
    rw [← Option.some.inj haccepted]
    exact Nat.not_le.mp hlt

/-- **A name fits** in the message if it is shorter than `MAX_LENGTH_CLUSTER_NAME`. -/
theorem handshakeMessage_eq_some_iff {name message : List UInt8} :
    handshakeMessage o name = some message ↔
      name.length < maxLengthClusterName ∧ message = nameBytes name := by
  constructor
  · intro h
    by_cases hlt : name.length < maxLengthClusterName
    · rw [handshakeMessage_of_lt hlt, Option.some.injEq] at h
      exact ⟨hlt, h.symm⟩
    · obtain ⟨m₁, h₁, h⟩ := Option.bind_eq_some_iff.mp h
      obtain ⟨m₂, h₂, h⟩ := Option.bind_eq_some_iff.mp h
      obtain ⟨m₃, h₃, _⟩ := Option.bind_eq_some_iff.mp h
      have hlength : m₂.length = 2 * 4 + maxLengthClusterName := by
        rw [length_of_copyTo h₂, length_of_copyTo h₁, List.length_replicate]
      rw [copyTo_eq_none (by simp only [hlength, List.length_append, List.length_singleton]; omega)]
        at h₃
      cases h₃
  · rintro ⟨hlt, rfl⟩
    exact handshakeMessage_of_lt hlt

theorem reads_readInt (w : UInt32) : Reads readInt (toBytes w) w := readInt_toBytes w

/-- The length of a short name is a small `int`. -/
theorem toInt_length {n : Nat} (hn : n < 2 ^ 31) : (UInt32.ofNat n).toInt32.toInt = n := by
  show (UInt32.ofNat n).toInt32.toInt = n
  rw [UInt32.toInt32_ofNat', Int32.toInt_ofNat_of_lt hn]

theorem toNat_ofNat {n : Nat} (hn : n < 2 ^ 32) : (UInt32.ofNat n).toNat = n :=
  UInt32.toNat_ofNat_of_lt' hn

/-- **The server reads the name.** -/
theorem reads_receiveName {name : List UInt8} (hpos : 0 < name.length)
    (hle : name.length ≤ maxLengthClusterName) : Reads receiveName (nameBytes name) name := by
  have hsmall : name.length ≤ 128 := hle
  have hint := toInt_length (by omega : name.length < 2 ^ 31)
  rw [nameBytes, List.append_assoc]
  refine (reads_readInt _).bind (Reads.bind_nil (reads_require rfl) ?_)
  refine (reads_readInt _).bind (Reads.bind_nil (reads_require ?_) (reads_readFully ?_))
  · rw [hint]
    omega
  · exact (toNat_ofNat (by omega)).symm

/-- The server refuses a name without letters. -/
theorem receiveName_nil : receiveName (nameBytes []) = none := by
  decide

/-! ## The reply -/

/-- Word `k` of what has been received. -/
theorem reads_networkWord {ws : List UInt32} {k : Nat} {w : UInt32} (hw : ws[k]? = some w) :
    Reads (ofOption (o.networkWord (bytesOf ws) k) : Reader UInt8 UInt32) [] w :=
  reads_ofOption ((networkWord_bytesOf o ws k).trans hw)

/-- Words that are received together. -/
theorem reads_words (ws : List UInt32) {n : Nat} (hn : 4 * ws.length = n) :
    Reads (readFully n) (bytesOf ws) (bytesOf ws) :=
  reads_readFully ((length_bytesOf ws).trans hn)

/-- **The gateway decodes the reply**, and checks it. -/
theorem handshake_bytesOf (reply : HandshakeReply) (rest : List UInt8) :
    handshake o (bytesOf ([opcodeHandshakeAccepted] ++ [reply.clusterRank, reply.clusterCount,
      reply.localApplicationSize, reply.gatewayCount]) ++ rest) =
        if reply.accepted = true then some (reply, rest) else none := by
  have hopcode : Reads (readFully 4) (bytesOf [opcodeHandshakeAccepted]) _ := reads_words _ rfl
  have hrest : Reads (readFully (4 * 4)) (bytesOf [reply.clusterRank, reply.clusterCount,
      reply.localApplicationSize, reply.gatewayCount]) _ := reads_words _ rfl
  rw [bytesOf_append, List.append_assoc, handshake, hopcode.bind_eq,
    (reads_networkWord rfl).bind_eq_nil, (reads_require rfl).bind_eq_nil, hrest.bind_eq,
    (reads_networkWord rfl).bind_eq_nil, (reads_networkWord rfl).bind_eq_nil,
    (reads_networkWord rfl).bind_eq_nil, (reads_networkWord rfl).bind_eq_nil]
  by_cases haccepted : reply.accepted = true
  · rw [if_pos haccepted]
    exact (reads_require haccepted).bind_eq_nil _ _
  · rw [if_neg haccepted, bind_apply, require, if_neg haccepted]
    rfl

/-- **The gateway decodes the sizes.** -/
theorem reads_receiveClusterSizes {count : UInt32} {ws : List UInt32}
    (hcount : count.toNat = ws.length) (hlt : ws.length < maxClusters) :
    Reads (receiveClusterSizes o count) (bytesOf ws) ws := by
  have hlt' : ws.length < 256 := hlt
  have hbytes : 4 * ws.length = (count * 4).toNat := by
    rw [UInt32.toNat_mul, hcount]
    show 4 * ws.length = ws.length * 4 % 2 ^ 32
    omega
  have hrow : (List.range ws.length).map (fun i => ws.getD i 0) = ws := by
    refine List.ext_getElem (by simp) fun i h₁ h₂ => ?_
    simp [List.getElem?_eq_getElem h₂]
  have hword : ∀ i ∈ List.range ws.length,
      Reads (ofOption (o.networkWord (bytesOf ws) i) : Reader UInt8 UInt32) [] (ws.getD i 0) := by
    intro i hi
    have hi := List.mem_range.mp hi
    exact reads_networkWord (by simp [hi])
  have hreads := reads_mapM hword
  rw [hrow] at hreads
  refine (reads_words ws hbytes).map ?_
  rw [hcount]
  rwa [List.flatMap_eq_nil_iff.mpr fun _ _ => rfl] at hreads

/-- What the server sends is the reply that it holds, and the sizes. -/
theorem sendHandshakeReply_eq (cfg : Configuration) (i : Nat) (c : Cluster) :
    cfg.sendHandshakeReply i c = bytesOf ([opcodeHandshakeAccepted] ++
      [(cfg.replyFor i c).clusterRank, (cfg.replyFor i c).clusterCount,
        (cfg.replyFor i c).localApplicationSize, (cfg.replyFor i c).gatewayCount]) ++
          bytesOf (cfg.sizes.map UInt32.ofNat) :=
  bytesOf_append _ _

/-- **The master gateway decodes the reply and the sizes.** -/
theorem reads_masterGatewayInit {i : Nat} (hc : cfg.clusters[i]? = some c)
    (hsize : c.applicationProcesses < maxProcessesPerCluster) :
    Reads (masterGatewayInit o (c.applicationProcesses + cfg.numberOfGatewaysPerCluster))
      (cfg.sendHandshakeReply i c) (cfg.replyFor i c, cfg.sizes.map UInt32.ofNat) := by
  have haccepted := (Configuration.replyFor_accepted_iff hc).mpr hsize
  have hclusters : cfg.clusters.length < 256 := cfg.clusters_lt
  have hlength : (cfg.sizes.map UInt32.ofNat).length = cfg.clusters.length := by
    rw [List.length_map, Configuration.sizes, List.length_map]
  have hcount : (cfg.replyFor i c).clusterCount.toNat = (cfg.sizes.map UInt32.ofNat).length := by
    rw [hlength]
    exact toNat_ofNat (by omega)
  rw [sendHandshakeReply_eq]
  refine Reads.bind (fun rest => ?_) (Reads.bind_nil (reads_require ?_)
    ((reads_receiveClusterSizes hcount (hlength ▸ cfg.clusters_lt)).map (Reads.pure _)))
  · rw [handshake_bytesOf, if_pos haccepted]
  · exact (UInt32.ofNat_add _ _).symm

/-- A reply that is decoded is the one that the server holds, and the gateway accepts it. -/
theorem reply_of_masterGatewayInit {i size : Nat} {rest rest' : List UInt8}
    {reply : HandshakeReply} {sizes : List UInt32}
    (h : masterGatewayInit o size (cfg.sendHandshakeReply i c ++ rest) =
      some ((reply, sizes), rest')) :
    reply = cfg.replyFor i c ∧ reply.accepted = true := by
  rw [sendHandshakeReply_eq, List.append_assoc] at h
  obtain ⟨decoded, _, hdecoded, h⟩ := bind_eq_some h
  obtain ⟨_, _, _, h⟩ := bind_eq_some h
  obtain ⟨_, _, _, h⟩ := bind_eq_some h
  obtain ⟨⟨rfl, _⟩, _⟩ := Prod.mk.inj (Option.some.inj h)
  rw [handshake_bytesOf] at hdecoded
  split at hdecoded
  · cases hdecoded
    exact ⟨rfl, by assumption⟩
  · cases hdecoded

/-! ## The addresses of the gateways -/

theorem reads_readAddress (a : Ipv4) : Reads readAddress a.bytes a := by
  obtain ⟨bytes, hbytes⟩ := a
  match bytes, hbytes with
  | [_, _, _, _], _ => exact fun _ => rfl

/-- **The server reads the addresses** of a gateway, and selects one. -/
theorem reads_receiveGatewayInfo {i index : Nat} {ip4ads : List Ipv4} {a : Ipv4}
    (hpos : 0 < ip4ads.length) (hlt : ip4ads.length < 2 ^ 31)
    (hselect : selectAddress c.network c.netmask ip4ads = some a) :
    Reads (cfg.receiveGatewayInfo i c index) (sendGatewayInfo o (UInt32.ofNat i) index ip4ads)
      ⟨a, cfg.gatewayInfo c index⟩ := by
  have hcount : (UInt32.ofNat ip4ads.length).toNat = ip4ads.length := toNat_ofNat (by omega)
  simp only [sendGatewayInfo, ByteOrder.store_htonl, List.append_assoc]
  refine (reads_readInt _).bind (Reads.bind_nil (reads_require rfl) ?_)
  refine (reads_readInt _).bind (Reads.bind_nil (reads_require rfl) ?_)
  refine (reads_readInt _).bind (Reads.bind_nil (reads_require rfl) ?_)
  refine (reads_readInt _).bind (Reads.bind_nil (reads_require ?_) ?_)
  · rw [toInt_length hlt]
    omega
  · rw [hcount]
    exact (reads_times fun a _ => reads_readAddress a).map
      (Reads.bind_nil (reads_ofOption hselect) (Reads.pure _))

/-- **The server reads the addresses** of all gateways of a cluster. -/
theorem reads_receiveAllGatewayInfo {i : Nat} {reply : HandshakeReply}
    {addresses : Nat → List Ipv4} {selected : Nat → Ipv4}
    (hrank : reply.clusterRank = UInt32.ofNat i)
    (hcount : reply.gatewayCount.toNat = cfg.numberOfGatewaysPerCluster)
    (hpos : ∀ j, 0 < (addresses j).length) (hlt : ∀ j, (addresses j).length < 2 ^ 31)
    (hselect : ∀ j < cfg.numberOfGatewaysPerCluster,
      selectAddress c.network c.netmask (addresses j) = some (selected j)) :
    Reads (cfg.receiveAllGatewayInfo i c) (sendAllAddresses o reply addresses)
      ((List.range cfg.numberOfGatewaysPerCluster).map fun j =>
        ⟨selected j, cfg.gatewayInfo c j⟩) := by
  rw [sendAllAddresses, hcount, hrank]
  exact reads_mapM fun j hj =>
    reads_receiveGatewayInfo (hpos j) (hlt j) (hselect j (List.mem_range.mp hj))

/-! ## The table -/

/-- What a gateway has in its table for another, if the rest of `ipv4` has been `before`. -/
def HeldInfo.entry (m : Machine) (before : Nat → UInt8) (held : HeldInfo) : TableEntry where
  ipv4 := held.address.bytes ++ (List.range (m.sizeofLong - 4)).map before
  info := ⟨held.info.port.toUInt16, held.info.streams.toUInt16⟩

/-- **A gateway reads an entry.** -/
theorem reads_receiveGatewayEntry (before : Nat → UInt8) (held : HeldInfo) :
    Reads (receiveGatewayEntry m before) held.send (held.entry m before) := by
  have hport : Reads (readFully 2) (writeShort held.info.port) _ := reads_readFully rfl
  have hstreams : Reads (readFully 2) (writeShort held.info.streams) _ := reads_readFully rfl
  have hinfo := receiveGateway_send m.order held.info
  exact (reads_readFully held.address.length_bytes).bind (hport.bind (hstreams.map
    (Reads.bind_nil (reads_ofOption hinfo) (Reads.pure _))))

/-- All entries that the server sends, in the order of the loops. -/
theorem sendAllGatewayInfo_eq (n gateways : Nat) (held : Nat → Nat → HeldInfo) :
    sendAllGatewayInfo ((List.range n).map fun i => (List.range gateways).map (held i)) =
      (gatewayPairs n gateways).flatMap fun p => (held p.1 p.2).send := by
  simp only [sendAllGatewayInfo, gatewayPairs, List.flatMap_map, List.flatMap_assoc]

theorem mem_gatewayPairs {n gateways : Nat} {p : Nat × Nat} :
    p ∈ gatewayPairs n gateways ↔ p.1 < n ∧ p.2 < gateways := by
  simp only [gatewayPairs, List.mem_flatMap, List.mem_map, List.mem_range]
  constructor
  · rintro ⟨i, hi, j, hj, rfl⟩
    exact ⟨hi, hj⟩
  · rintro ⟨hi, hj⟩
    exact ⟨p.1, hi, p.2, hj, rfl⟩

/-- The index of an entry does not overflow. -/
theorem tableIndex_eq {reply : HandshakeReply} {n i j : Nat}
    (hsmall : n * reply.gatewayCount.toNat < 2 ^ 32) (hi : i < n)
    (hj : j < reply.gatewayCount.toNat) :
    tableIndex reply (i, j) = i * reply.gatewayCount.toNat + j := by
  have hle : i * reply.gatewayCount.toNat + reply.gatewayCount.toNat ≤
      n * reply.gatewayCount.toNat := by
    rw [← Nat.succ_mul]
    exact Nat.mul_le_mul_right _ hi
  have hlt : i * reply.gatewayCount.toNat < 2 ^ 32 := by omega
  have hi' : i < 2 ^ 32 := Nat.lt_of_le_of_lt (Nat.le_mul_of_pos_right i (by omega)) hlt
  rw [tableIndex, UInt32.toNat_add, UInt32.toNat_mul, toNat_ofNat hi', toNat_ofNat (by omega),
    Nat.mod_eq_of_lt hlt, Nat.mod_eq_of_lt (by omega)]

/-- No two entries have one index. -/
theorem eq_of_index_eq {gateways i j i' j' : Nat} (hj : j < gateways) (hj' : j' < gateways)
    (h : i * gateways + j = i' * gateways + j') : i = i' ∧ j = j' := by
  have hi := congrArg (· / gateways) h
  have hmod := congrArg (· % gateways) h
  have hpos : 0 < gateways := by omega
  simp only [Nat.mul_comm _ gateways, Nat.mul_add_div hpos, Nat.mul_add_mod, Nat.div_eq_of_lt hj,
    Nat.div_eq_of_lt hj', Nat.mod_eq_of_lt hj, Nat.mod_eq_of_lt hj', Nat.add_zero] at hi hmod
  exact ⟨hi, hmod⟩

/-- **The master gateway reads the table**, with every entry in its place. -/
theorem reads_receiveGatewayTable {reply : HandshakeReply} {n gateways : Nat}
    (before : Nat → Nat → UInt8) (held : Nat → Nat → HeldInfo)
    (hcount : reply.clusterCount.toNat = n) (hgateways : reply.gatewayCount.toNat = gateways)
    (hsmall : n * gateways < 2 ^ 32) :
    ∃ table, Reads (receiveGatewayTable m before reply)
        (sendAllGatewayInfo ((List.range n).map fun i => (List.range gateways).map (held i)))
        table ∧
      ∀ i < n, ∀ j < gateways, table[i * gateways + j]? =
        some ((held i j).entry m (before (i * gateways + j))) := by
  subst hcount hgateways
  have hbody : ∀ p ∈ gatewayPairs reply.clusterCount.toNat reply.gatewayCount.toNat, ∀ table,
      Reads (receiveInto m before reply table p) (held p.1 p.2).send
        (table.set (tableIndex reply p) ((held p.1 p.2).entry m (before (tableIndex reply p)))) :=
    fun p _ table => (reads_receiveGatewayEntry _ _).map (Reads.pure _)
  have hindex : ∀ p ∈ gatewayPairs reply.clusterCount.toNat reply.gatewayCount.toNat,
      tableIndex reply p = p.1 * reply.gatewayCount.toNat + p.2 := fun p hp =>
    tableIndex_eq hsmall (mem_gatewayPairs.mp hp).1 (mem_gatewayPairs.mp hp).2
  have hinj : ∀ p ∈ gatewayPairs reply.clusterCount.toNat reply.gatewayCount.toNat,
      ∀ q ∈ gatewayPairs reply.clusterCount.toNat reply.gatewayCount.toNat,
        tableIndex reply p = tableIndex reply q →
          (held p.1 p.2).entry m (before (tableIndex reply p)) =
            (held q.1 q.2).entry m (before (tableIndex reply q)) := by
    intro p hp q hq heq
    rw [hindex p hp, hindex q hq] at heq
    obtain ⟨h₁, h₂⟩ := eq_of_index_eq (mem_gatewayPairs.mp hp).2 (mem_gatewayPairs.mp hq).2 heq
    rw [Prod.ext h₁ h₂]
  rw [sendAllGatewayInfo_eq]
  refine ⟨_, reads_foldlM hbody _, fun i hi j hj => ?_⟩
  have hmem : (i, j) ∈ gatewayPairs reply.clusterCount.toNat reply.gatewayCount.toNat :=
    mem_gatewayPairs.mpr ⟨hi, hj⟩
  have hlt : tableIndex reply (i, j) < (emptyTable m reply).length := by
    have hle := Nat.mul_le_mul_right reply.gatewayCount.toNat hi
    rw [Nat.succ_mul] at hle
    rw [hindex _ hmem, emptyTable, List.length_replicate]
    show i * reply.gatewayCount.toNat + j < _
    omega
  have hentry := getElem?_foldl_set hinj hmem hlt
  rwa [hindex _ hmem] at hentry

theorem lookup_map_of_mem {α : Type} {g : Nat} {dsts : List Nat} (f : Nat → α) (hg : g ∈ dsts) :
    (dsts.map fun dst => (dst, f dst)).lookup g = some (f g) := by
  induction dsts with
  | nil => cases hg
  | cons dst dsts ih =>
      rw [List.map_cons, List.lookup_cons]
      by_cases heq : g = dst
      · rw [beq_iff_eq.mpr heq, heq]
      · rw [beq_eq_false_iff_ne.mpr heq]
        exact ih ((List.mem_cons.mp hg).resolve_left heq)

/-- The other gateways have the table of their master. -/
theorem gatewayTable_eq {reply : HandshakeReply} {table : List TableEntry} {g : Nat}
    (hg : g < reply.gatewayCount.toNat) : gatewayTable reply table g = some table := by
  rw [gatewayTable]
  split
  · rfl
  · next hzero =>
    exact lookup_map_of_mem (fun _ => table) (List.mem_range'_1.mpr (by omega))

/-! ## The address -/

/-- On a machine that stores the least significant byte first, the four bytes are the address,
whatever is behind them. -/
theorem address_of_little (wideLong : Bool) (before : Nat → UInt8) (held : HeldInfo) :
    (⟨.little, wideLong⟩ : Machine).address (held.entry ⟨.little, wideLong⟩ before) =
      held.address.bytes := by
  obtain ⟨⟨bytes, hbytes⟩, info⟩ := held
  match bytes, hbytes with
  | [a, b, c, d], _ =>
      have hword : ∀ n : Nat, UInt32.ofNat (a.toNat + 256 * (b.toNat + 256 * (c.toNat +
          256 * (d.toNat + 256 * n)))) = ofBytes d c b a := by
        intro n
        apply UInt32.toNat_inj.mp
        rw [ofBytes, UInt32.toNat_ofNat', UInt32.toNat_ofNat']
        omega
      show (toBytes (UInt32.ofNat (a.toNat + 256 * (b.toNat + 256 * (c.toNat + 256 * (d.toNat +
        256 * _)))))).reverse = _
      rw [hword, toBytes_ofBytes]
      rfl

/-- The four bytes are all of a short `unsigned long`. -/
theorem address_of_narrow (before : Nat → UInt8) (held : HeldInfo) :
    (⟨.big, false⟩ : Machine).address (held.entry ⟨.big, false⟩ before) =
      held.address.bytes := by
  obtain ⟨⟨bytes, hbytes⟩, info⟩ := held
  match bytes, hbytes with
  | [a, b, c, d], _ =>
      have hword : UInt32.ofNat (256 * (256 * (256 * (256 * 0 + a.toNat) + b.toNat) + c.toNat) +
          d.toNat) = ofBytes a b c d := by
        apply UInt32.toNat_inj.mp
        rw [ofBytes, UInt32.toNat_ofNat', UInt32.toNat_ofNat']
        omega
      show toBytes (UInt32.ofNat (256 * (256 * (256 * (256 * 0 + a.toNat) + b.toNat) + c.toNat) +
        d.toNat)) = _
      rw [hword, toBytes_ofBytes]

/-- **A long `unsigned long`** that starts with its most significant byte ends with four bytes
that have not been received. -/
theorem address_of_wide (before : Nat → UInt8) (held : HeldInfo) :
    (⟨.big, true⟩ : Machine).address (held.entry ⟨.big, true⟩ before) =
      [before 0, before 1, before 2, before 3] := by
  obtain ⟨⟨bytes, hbytes⟩, info⟩ := held
  match bytes, hbytes with
  | [a, b, c, d], _ =>
      have hword : ∀ n : Nat, UInt32.ofNat (256 * (256 * (256 * (256 * n + (before 0).toNat) +
          (before 1).toNat) + (before 2).toNat) + (before 3).toNat) =
            ofBytes (before 0) (before 1) (before 2) (before 3) := by
        intro n
        apply UInt32.toNat_inj.mp
        rw [ofBytes, UInt32.toNat_ofNat', UInt32.toNat_ofNat']
        omega
      show toBytes (UInt32.ofNat (256 * (256 * (256 * (256 * _ + (before 0).toNat) +
        (before 1).toNat) + (before 2).toNat) + (before 3).toNat)) = _
      rw [hword, toBytes_ofBytes]

/-- **The address that is used** is the one that has been received, whatever has been in the
memory, unless the most significant bytes of a long `unsigned long` come first. -/
theorem address_entry_iff (m : Machine) (held : HeldInfo) :
    (∀ before, m.address (held.entry m before) = held.address.bytes) ↔
      m.order = .little ∨ m.wideLong = false := by
  obtain ⟨order, wideLong⟩ := m
  constructor
  · intro h
    cases order with
    | little => exact Or.inl rfl
    | big =>
        cases wideLong with
        | false => exact Or.inr rfl
        | true =>
            have h₀ := (address_of_wide (fun _ => 0) held).symm.trans (h _)
            have h₁ := (address_of_wide (fun _ => 1) held).symm.trans (h _)
            exact absurd (List.cons.inj (h₀.trans h₁.symm)).1 (by decide)
  · rintro (h | h) before
    · obtain rfl : order = .little := h
      exact address_of_little wideLong before held
    · obtain rfl : wideLong = false := h
      cases order with
      | little => exact address_of_little false before held
      | big => exact address_of_narrow before held

end Startup

end EsalsaMpi
