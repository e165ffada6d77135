import EsalsaMpi.Backend.Member.View

/-!
# The parts of a call, as messages

In every run a member of a communicator knows its rank, and where the others are
(`View`).  So each part of a call is a part of a block of messages: `do_send` and
`do_recv` take one message from rank to rank (`View.follows_doSend`,
`View.follows_doRecv`), `messaging_bcast` sends one to each other coordinator
(`View.follows_bcastMessages`), and a collective call of the library is a block of
messages inside the clusters (`libraryBlock`).
-/

namespace EsalsaMpi

open ProcessNetwork FirstOccurrence

section Messages

variable {α : Type} (pk : Packing α) (members : List Pid) (n : Nat)

/-- The message that takes `buf` from rank `s` to rank `d` over the wide area. -/
def wideMessage (opcode : Nat) (tag : Int) (buf : List α) (s d : Nat) : DataMessage :=
  createDataMessage (members.getD s 0) opcode (members.getD d 0) n s d tag buf.length
    (((pk.packSize buf.length).bind (pk.pack buf)).getD [])

/-- What `do_send` makes of `buf`. -/
def transfer (tag : Int) (buf : List α) (s d : Nat) : Lane × Packet α :=
  if clusterAt members s = clusterAt members d then
    (⟨.library tag, s, d⟩, .elements buf)
  else
    (⟨.wideArea tag, s, d⟩, .wideArea (wideMessage pk members n opcodeData tag buf s d))

/-- Each rank has a rank of its own cluster, and a cluster has one. -/
def LocalRoot (root : Nat → Nat) : Prop :=
  ∀ r < members.length, root r ∈ localsOf members r ∧
    ∀ i ∈ localsOf members r, root i = root r

/-- The messages of a collective call of the library in all clusters.  `feeds r i` says
that rank `i` depends on rank `r`, and `data` is what they have. -/
def libraryBlock (carrier : Carrier) (feeds : Nat → Nat → Prop) [DecidableRel feeds]
    (data : Nat → List α) : List (Lane × Packet α) :=
  (List.range members.length).flatMap fun r => (List.range members.length).flatMap fun i =>
    if clusterAt members i = clusterAt members r ∧ i ≠ r ∧ feeds r i then
      [(⟨carrier, r, i⟩, .elements (data r))]
    else
      []

/-- The messages of `PMPI_Bcast`, where `root r` is the root in the cluster of `r`. -/
def bcastBlock (root : Nat → Nat) (data : Nat → List α) : List (Lane × Packet α) :=
  libraryBlock members .bcast (fun r _ => root r = r) data

/-- Those of `PMPI_Reduce`. -/
def reduceBlock (root : Nat → Nat) (data : Nat → List α) : List (Lane × Packet α) :=
  libraryBlock members .reduce (fun r i => i = root r) data

/-- Those of `PMPI_Scan`. -/
def scanBlock (data : Nat → List α) : List (Lane × Packet α) :=
  libraryBlock members .scan (· < ·) data

/-- Those of `PMPI_Barrier`. -/
def barrierBlock : List (Lane × Packet α) :=
  libraryBlock members .barrier (fun _ _ => True) fun _ => []

variable {pk members n}

@[simp] theorem transfer_source (tag : Int) (buf : List α) (s d : Nat) :
    (transfer pk members n tag buf s d).1.source = s := by
  unfold transfer
  split <;> rfl

@[simp] theorem transfer_dest (tag : Int) (buf : List α) (s d : Nat) :
    (transfer pk members n tag buf s d).1.dest = d := by
  unfold transfer
  split <;> rfl

/-- **A message over the wide area** can be unpacked. -/
theorem unpackMessage_wideMessage (hpk : pk.Lawful) {buf xs : List α}
    (hsend : pk.Sendable xs.length) (type : Int) (opcode : Nat) (tag : Int) (s d : Nat)
    (hlength : buf.length = xs.length) :
    (unpackMessage pk buf buf.length type (wideMessage pk members n opcode tag xs s d)).map (·.1) =
      some xs := by
  obtain ⟨bytes, hbytes, _⟩ := hsend
  obtain ⟨payload, hpayload, _⟩ := hpk.pack xs bytes hbytes
  have hunpack := hpk.unpack xs bytes payload hbytes hpayload
  simp [unpackMessage, wideMessage, createDataMessage, hbytes, hpayload, hlength, hunpack,
    List.drop_of_length_le hlength.le]

end Messages

namespace View

variable {α : Type} {pk : Packing α} {type : Int} {members : List Pid} {n r i : Nat} {p : Process}
  {c : Communicator}

/-- **What is sent over the wide area**, where it fits into a message. -/
theorem doSend_eq (h : View members n r p c) (hpk : pk.Lawful) {buf : List α}
    (hsend : pk.Sendable buf.length) (opcode : Nat) (tag : Int) (hi : i < members.length) :
    EsalsaMpi.doSend pk p.pid opcode buf i tag c =
      some (wideMessage pk members n opcode tag buf r i) := by
  obtain ⟨bytes, hbytes, hlt⟩ := hsend
  obtain ⟨payload, hpayload, _⟩ := hpk.pack buf bytes hbytes
  obtain ⟨hr, hown⟩ := List.getElem?_eq_some_iff.mp h.rank
  rw [EsalsaMpi.doSend, hbytes, Option.bind_some, if_pos hlt, h.getPid,
    List.getElem?_eq_getElem hi, Option.bind_some, hpayload, Option.map_some, wideMessage, hbytes, Option.bind_some, hpayload,
    Option.getD_some, h.mirrors.handle, h.globalRank, List.getD_eq_getElem _ _ hi,
    List.getD_eq_getElem _ _ hr, hown]

theorem follows_sendMessage {β : Type} (h : View members n r p c) (hpk : pk.Lawful)
    {buf : List α} (hsend : pk.Sendable buf.length) (tag : Int) (hi : i < members.length) :
    Follows (sendMessage (β := β) pk p c buf i tag)
      [.send ⟨.wideArea tag, r, i⟩ (.wideArea (wideMessage pk members n opcodeData tag buf r i))]
      () := by
  rw [sendMessage, messagingSend, h.doSend_eq hpk hsend _ _ hi, ← h.globalRank]
  exact .send (.done ())

/-- What does not fit into a message is not sent. -/
theorem sendMessage_eq_fail {β : Type} {buf : List α} (hsend : ¬ pk.Sendable buf.length)
    (p : Process) (c : Communicator) (i : Nat) (tag : Int) :
    sendMessage (β := β) pk p c buf i tag = .fail := by
  rw [sendMessage, messagingSend, doSend_eq_none p.pid hsend i tag c]

theorem follows_receiveMessage {β : Type} (h : View members n r p c) (hpk : pk.Lawful)
    (opcode : Nat) {buf xs : List α} (hsend : pk.Sendable xs.length)
    (hlength : buf.length = xs.length) (tag : Int) (i : Nat) :
    Follows (receiveMessage (β := β) pk type c buf i tag)
      [.recv ⟨.wideArea tag, i, r⟩ (.wideArea (wideMessage pk members n opcode tag xs i r))]
      xs := by
  rw [receiveMessage, h.globalRank]
  apply Follows.recv
  simp only [unpackMessage_wideMessage hpk hsend type opcode tag i r hlength]
  exact .done xs

/-- **`do_send`** is one message. -/
theorem follows_doSend (h : View members n r p c) (hpk : pk.Lawful) {buf : List α}
    (hsend : clusterAt members r ≠ clusterAt members i → pk.Sendable buf.length) (tag : Int)
    (hi : i < members.length) :
    Follows (Empi.doSend pk p c buf i tag)
      [.send (transfer pk members n tag buf r i).1 (transfer pk members n tag buf r i).2] () := by
  rw [Empi.doSend, h.rankIsLocal_eq hi, transfer]
  by_cases hcluster : clusterAt members i = clusterAt members r
  · obtain ⟨k, hk, hpeer⟩ := h.exists_localRank (mem_localsOf.mpr ⟨hi, hcluster⟩)
    rw [if_pos (decide_eq_true hcluster), if_pos hcluster.symm, hk]
    show Follows (pmpiSend c buf k tag) _ _
    rw [pmpiSend, hpeer, h.globalRank]
    exact .send (.done ())
  · rw [if_neg (by simpa using hcluster), if_neg (Ne.symm hcluster)]
    exact h.follows_sendMessage hpk (hsend (Ne.symm hcluster)) tag hi

/-- To another cluster it fails, where it does not fit into a message. -/
theorem doSend_eq_fail (h : View members n r p c) {buf : List α}
    (hsend : ¬ pk.Sendable buf.length) (hcluster : clusterAt members i ≠ clusterAt members r)
    (tag : Int) (hi : i < members.length) : Empi.doSend pk p c buf i tag = .fail := by
  rw [Empi.doSend, h.rankIsLocal_eq hi, if_neg (by simpa using hcluster),
    sendMessage_eq_fail hsend]

/-- **`do_recv`** receives it. -/
theorem follows_doRecv (h : View members n r p c) (hpk : pk.Lawful) {buf xs : List α}
    (hsend : clusterAt members i ≠ clusterAt members r → pk.Sendable xs.length)
    (hlength : buf.length = xs.length) (tag : Int) (hi : i < members.length) :
    Follows (Empi.doRecv pk type p c buf i tag)
      [.recv (transfer pk members n tag xs i r).1 (transfer pk members n tag xs i r).2] xs := by
  rw [Empi.doRecv, h.rankIsLocal_eq hi, transfer]
  by_cases hcluster : clusterAt members i = clusterAt members r
  · obtain ⟨k, hk, hpeer⟩ := h.exists_localRank (mem_localsOf.mpr ⟨hi, hcluster⟩)
    rw [if_pos (decide_eq_true hcluster), if_pos hcluster, hk]
    show Follows (pmpiReceive c buf k tag) _ _
    rw [pmpiReceive, hpeer, h.globalRank]
    apply Follows.recv
    simp only [pmpiRecv, hlength, Nat.le_refl, if_true, Option.map_some,
      List.drop_of_length_le hlength.le, List.append_nil]
    exact .done xs
  · rw [if_neg (by simpa using hcluster), if_neg hcluster]
    exact h.follows_receiveMessage hpk opcodeData (hsend hcluster) hlength tag i

/-! ### Broadcasts to the coordinators -/

theorem coordinatorOf_lt {count k : Nat} (hspans : SpansInOrder members count) (hk : k < count) :
    coordinatorOf members k < members.length :=
  (List.getElem?_eq_some_iff.mp (getElem?_coordinatorPid hspans hk)).1

theorem clusterAt_coordinatorOf {count k : Nat} (hspans : SpansInOrder members count)
    (hk : k < count) : clusterAt members (coordinatorOf members k) = k := by
  rw [clusterAt_of_getElem? (getElem?_coordinatorPid hspans hk), cluster_coordinatorPid hspans hk]

theorem clusterAt_lt {count : Nat} (hspans : SpansInOrder members count) (hi : i < members.length) :
    clusterAt members i < count := by
  rw [clusterAt_of_getElem? (List.getElem?_eq_getElem hi)]
  exact cluster_lt_of_mem hspans (List.getElem_mem hi)

theorem getElem?_coordinators (h : View members n r p c) {count k : Nat}
    (hspans : SpansInOrder members count) (hk : k < count) :
    c.tables.coordinators[k]? = some (coordinatorOf members k) := by
  rw [h.mirrors.tables]
  exact getElem?_coordinators_of_spans hspans hk

theorem clusterCount (h : View members n r p c) {count : Nat}
    (hspans : SpansInOrder members count) : c.clusterCount = count := by
  have hlength : (Server.tablesSpec members).coordinators.length =
      (Server.tablesSpec members).clusterRanks.length := by
    simp [Server.tablesSpec]
  rw [h.mirrors.clusterCount, h.mirrors.tables, hlength, show _ = List.range count from hspans,
    List.length_range]

/-- **`messaging_bcast`** sends a message to the coordinator of every other
cluster. -/
theorem follows_bcastMessages {β : Type} (h : View members n r p c) (hpk : pk.Lawful)
    {count : Nat} (hspans : SpansInOrder members count) {buf : List α}
    (hsend : pk.Sendable buf.length) :
    Follows (bcastMessages (β := β) pk p c count buf)
      ((List.range count).flatMap fun i =>
        if i ≠ clusterAt members r then
          [.send ⟨.wideArea bcastTag, r, coordinatorOf members i⟩ (.wideArea (wideMessage pk
            members n opcodeCollectiveBcast bcastTag buf r (coordinatorOf members i)))]
        else
          []) () := by
  have hbcast : ∀ i ∈ List.range count, i ≠ p.clusterRank → bcastSend pk p.pid buf c i =
      some (wideMessage pk members n opcodeCollectiveBcast bcastTag buf r
        (coordinatorOf members i)) := by
    intro i hi _
    have hlt := List.mem_range.mp hi
    rw [bcastSend, h.getElem?_coordinators hspans hlt, Option.bind_some]
    exact h.doSend_eq hpk hsend _ _ (coordinatorOf_lt hspans hlt)
  have hsends := Follows.foldr_send
    (f := fun i => (⟨.wideArea bcastTag, c.globalRank, coordinatorOf members i⟩ : Lane))
    (g := fun i => (.wideArea (wideMessage pk members n opcodeCollectiveBcast bcastTag buf r
      (coordinatorOf members i)) : Packet β))
    (Follows.done ()) ((List.range count).filter (· ≠ p.clusterRank))
  rw [List.append_nil, map_filter_eq_flatMap, h.globalRank, h.clusterRank] at hsends
  rw [bcastMessages, messagingBcast, bcastFrom_eq hbcast]
  simp only [List.foldr_map, if_true, h.clusterRank]
  rw [← h.globalRank] at hsends ⊢
  exact hsends

/-- Where the buffer does not fit into a message, it fails. -/
theorem bcastMessages_eq_fail {β : Type} {count : Nat} (hcount : 1 < count) {buf : List α}
    (hsend : ¬ pk.Sendable buf.length) (p : Process) (c : Communicator) :
    bcastMessages (β := β) pk p c count buf = .fail := by
  obtain ⟨hsent, hsuccess⟩ := messagingBcast_failed (p := p) (c := c) hcount hsend
  rw [bcastMessages, hsent, hsuccess]
  rfl

/-! ### The library -/

theorem others_eq (h : View members n r p c) :
    others c = (localsOf members r).filter (· ≠ r) := by
  rw [others, h.peers_eq, h.globalRank]

theorem follows_sendEach (h : View members n r p c) (carrier : Carrier) (buf : List α)
    (dests : List Nat) :
    Follows (sendEach c carrier buf dests)
      (dests.map fun i => .send ⟨carrier, r, i⟩ (.elements buf)) () := by
  have hsends := Follows.foldr_send (f := fun i => (⟨carrier, r, i⟩ : Lane))
    (g := fun _ => (.elements buf : Packet α)) (Follows.done ()) dests
  rw [sendEach, h.globalRank]
  rwa [List.append_nil] at hsends

theorem follows_receiveFrom (h : View members n r p c) (carrier : Carrier) (source : Nat)
    {buf xs : List α} (hlength : buf.length = xs.length) :
    Follows (receiveFrom c carrier source buf) [.recv ⟨carrier, source, r⟩ (.elements xs)] xs := by
  rw [receiveFrom, h.globalRank]
  apply Follows.recv
  simp only [hlength, Nat.le_refl, if_true, List.drop_of_length_le hlength.le, List.append_nil]
  exact .done xs

/-- The buffers of some processes are received one after the other. -/
theorem follows_collect (h : View members n r p c) (carrier : Carrier) {data : Nat → List α}
    {sources : List Nat} (hlength : ∀ i ∈ sources, (data i).length = (data r).length) :
    Follows (collect c carrier (data r) sources)
      ((sources.filter (· ≠ r)).map fun i => .recv ⟨carrier, i, r⟩ (.elements (data i)))
      (sources.map data) := by
  have hloop := Follows.foldlM_flatMap (l := sources)
    (f := fun bufs i => if i = r then (.done (bufs ++ [data r]) : Caller α (List (List α))) else
      receiveFrom c carrier i (data r) >>= fun xs => .done (bufs ++ [xs]))
    (g := fun bufs i => bufs ++ [data i])
    (t := fun i => if i ≠ r then [.recv ⟨carrier, i, r⟩ (.elements (data i))] else []) (by
      intro bufs i hi
      by_cases hir : i = r
      · rw [if_pos hir, if_neg (not_not_intro hir), hir]
        exact .done _
      · rw [if_neg hir, if_pos hir]
        exact (h.follows_receiveFrom carrier i (hlength i hi).symm).bind (.done _)) []
  have hbufs : sources.foldl (fun bufs i => bufs ++ [data i]) [] = sources.map data := by
    clear hlength hloop
    induction sources using List.reverseRecOn with
    | nil => rfl
    | append_singleton l i ih =>
        rw [List.foldl_append, ih, List.map_append]
        rfl
  rw [hbufs, ← map_filter_eq_flatMap] at hloop
  rw [collect, h.globalRank]
  exact hloop

section Blocks

variable {feeds : Nat → Nat → Prop} [DecidableRel feeds] {data : Nat → List α} {carrier : Carrier}

/-- What a process sends in a collective call of the library. -/
theorem sendsOf_libraryBlock (hr : r < members.length) :
    sendsOf Lane.source r (libraryBlock members carrier feeds data) =
      ((localsOf members r).filter fun i => i ≠ r ∧ feeds r i).map
        fun i => .send ⟨carrier, r, i⟩ (.elements (data r)) := by
  rw [libraryBlock, sendsOf_flatMap]
  simp only [sendsOf_flatMap, sendsOf_ite]
  rw [flatMap_range_single r, if_pos hr, filter_localsOf, map_filter_eq_flatMap]
  · apply List.flatMap_congr
    intro i _
    simp
  · intro j _ hj
    apply List.flatMap_eq_nil_iff.mpr
    intro i _
    exact if_neg fun h => hj h.2

/-- What it receives. -/
theorem receivesOf_libraryBlock (hr : r < members.length) :
    receivesOf Lane.dest r (libraryBlock members carrier feeds data) =
      ((localsOf members r).filter fun i => i ≠ r ∧ feeds i r).map
        fun i => .recv ⟨carrier, i, r⟩ (.elements (data i)) := by
  rw [libraryBlock, receivesOf_flatMap, filter_localsOf, map_filter_eq_flatMap]
  apply List.flatMap_congr
  intro i _
  simp only [receivesOf_flatMap, receivesOf_ite]
  rw [flatMap_range_single r fun j _ hj => if_neg fun h => hj h.2, if_pos hr]
  simp [eq_comm]

end Blocks

section Roots

variable {root : Nat → Nat} {data : Nat → List α}

/-- Every rank of a cluster has the root of the cluster as its root. -/
theorem root_eq_self_iff (hroot : LocalRoot members root) (hr : r < members.length)
    (hi : i ∈ localsOf members r) : root i = i ↔ i = root r := by
  rw [(hroot r hr).2 i hi, eq_comm]

/-- **`PMPI_Bcast`** gives everyone what the root of its cluster has. -/
theorem follows_pmpiBcast (h : View members n r p c) (hroot : LocalRoot members root) {k : Nat}
    (hk : c.peers[k]? = some (root r)) {buf : List α}
    (hlength : buf.length = (data (root r)).length) (hown : root r = r → buf = data r) :
    Follows (pmpiBcast c k buf) (partOf Lane.source Lane.dest r [bcastBlock members root data])
      (data (root r)) := by
  rw [partOf_cons, partOf_nil, List.append_nil, bcastBlock, sendsOf_libraryBlock h.rank_lt,
    receivesOf_libraryBlock h.rank_lt, pmpiBcast]
  by_cases hself : root r = r
  · have hreceives : (localsOf members r).filter (fun i => i ≠ r ∧ root i = i) = [] := by
      apply List.filter_eq_nil_iff.mpr
      intro i hi
      simp only [root_eq_self_iff hroot h.rank_lt hi, hself]
      simp
    rw [if_pos ((h.localRank_eq_iff hk).mpr hself), hreceives, List.map_nil, List.append_nil,
      hself, ← hown hself, h.others_eq]
    simp only [and_true]
    have hsends := (h.follows_sendEach .bcast buf ((localsOf members r).filter (· ≠ r))).bind
      (f := fun _ => (.done buf : Caller α (List α))) (.done _)
    rwa [List.append_nil] at hsends
  · have hsends : (localsOf members r).filter (fun i => i ≠ r ∧ root r = r) = [] := by
      apply List.filter_eq_nil_iff.mpr
      simp [hself]
    have hreceives : (localsOf members r).filter (fun i => i ≠ r ∧ root i = i) = [root r] := by
      have hcongr : (localsOf members r).filter (fun i => i ≠ r ∧ root i = i) =
          (localsOf members r).filter (· = root r) := by
        apply List.filter_congr
        intro i hi
        simp only [root_eq_self_iff hroot h.rank_lt hi]
        by_cases hi' : i = root r
        · simp [hi', hself]
        · simp [hi']
      rw [hcongr, filter_localsOf_eq (hroot r h.rank_lt).1]
    rw [if_neg fun heq => hself ((h.localRank_eq_iff hk).mp heq), hsends, hreceives, hk]
    exact h.follows_receiveFrom .bcast (root r) hlength

/-- **`PMPI_Reduce`** gives the root of each cluster what the library makes of the
buffers in it. -/
theorem follows_pmpiReduce (h : View members n r p c) (lib : Library α) (op : Operation α)
    (type : Int) (hroot : LocalRoot members root) {k : Nat} (hk : c.peers[k]? = some (root r))
    (recvbuf : List α) (hlength : ∀ i ∈ localsOf members r, (data i).length = (data r).length) :
    Follows (pmpiReduce c lib op type k (data r) recvbuf)
      (partOf Lane.source Lane.dest r [reduceBlock members root data])
      (if root r = r then lib.reduce op type ((localsOf members r).map data) else recvbuf) := by
  rw [partOf_cons, partOf_nil, List.append_nil, reduceBlock, sendsOf_libraryBlock h.rank_lt,
    receivesOf_libraryBlock h.rank_lt, pmpiReduce]
  by_cases hself : root r = r
  · have hsends : (localsOf members r).filter (fun i => i ≠ r ∧ i = root r) = [] := by
      apply List.filter_eq_nil_iff.mpr
      simp [hself]
    have hreceives : (localsOf members r).filter (fun i => i ≠ r ∧ r = root i) =
        (localsOf members r).filter (· ≠ r) := by
      apply List.filter_congr
      intro i hi
      simp [(hroot r h.rank_lt).2 i hi, hself]
    rw [if_pos ((h.localRank_eq_iff hk).mpr hself), if_pos hself, hsends, hreceives, List.map_nil,
      List.nil_append, h.peers_eq]
    have hbufs := (h.follows_collect .reduce hlength).bind
      (f := fun bufs => (.done (lib.reduce op type bufs) : Caller α (List α))) (.done _)
    rwa [List.append_nil] at hbufs
  · have hsends : (localsOf members r).filter (fun i => i ≠ r ∧ i = root r) = [root r] := by
      have hcongr : (localsOf members r).filter (fun i => i ≠ r ∧ i = root r) =
          (localsOf members r).filter (· = root r) := by
        apply List.filter_congr
        intro i _
        by_cases hi' : i = root r
        · simp [hi', hself]
        · simp [hi']
      rw [hcongr, filter_localsOf_eq (hroot r h.rank_lt).1]
    have hreceives : (localsOf members r).filter (fun i => i ≠ r ∧ r = root i) = [] := by
      apply List.filter_eq_nil_iff.mpr
      intro i hi
      simp [(hroot r h.rank_lt).2 i hi, Ne.symm hself]
    rw [if_neg fun heq => hself ((h.localRank_eq_iff hk).mp heq), if_neg hself, hsends, hreceives,
      hk, h.globalRank]
    exact .send (.done _)

end Roots

/-- **`PMPI_Scan`** gives everyone what the library makes of the buffers in its cluster
up to its own. -/
theorem follows_pmpiScan (h : View members n r p c) (lib : Library α) (op : Operation α)
    (type : Int) (data : Nat → List α)
    (hlength : ∀ i ∈ localsOf members r, (data i).length = (data r).length) :
    Follows (pmpiScan c lib op type (data r))
      (partOf Lane.source Lane.dest r [scanBlock members data])
      (lib.reduce op type (((localsOf members r).filter (· ≤ r)).map data)) := by
  have hsends : (localsOf members r).filter (fun i => i ≠ r ∧ r < i) =
      (localsOf members r).filter (r < ·) := by
    apply List.filter_congr
    intro i _
    exact Bool.eq_iff_iff.mpr (by simp; omega)
  have hreceives : (localsOf members r).filter (fun i => i ≠ r ∧ i < r) =
      ((localsOf members r).filter (· ≤ r)).filter (· ≠ r) := by
    rw [List.filter_filter]
    apply List.filter_congr
    intro i _
    exact Bool.eq_iff_iff.mpr (by simp; omega)
  rw [partOf_cons, partOf_nil, scanBlock, sendsOf_libraryBlock h.rank_lt,
    receivesOf_libraryBlock h.rank_lt, List.append_assoc, hsends, hreceives, pmpiScan, h.peers_eq,
    h.globalRank]
  exact (h.follows_sendEach .scan (data r) _).bind ((h.follows_collect .scan fun i hi =>
    hlength i (List.mem_of_mem_filter hi)).bind (.done _))

/-! ### Barriers of the library -/

theorem follows_enterBarrier (h : View members n r p c) :
    Follows (enterBarrier c) (sendsOf Lane.source r (barrierBlock (α := α) members)) () := by
  rw [barrierBlock, sendsOf_libraryBlock h.rank_lt, enterBarrier, h.others_eq]
  simp only [and_true]
  exact h.follows_sendEach .barrier [] _

theorem follows_leaveBarrier (h : View members n r p c) :
    Follows (leaveBarrier c) (receivesOf Lane.dest r (barrierBlock (α := α) members)) () := by
  rw [barrierBlock, receivesOf_libraryBlock h.rank_lt, leaveBarrier, h.others_eq]
  simp only [and_true]
  have hloop := Follows.foldlM_flatMap (l := (localsOf members r).filter (· ≠ r))
    (f := fun _ i => receiveFrom (α := α) c .barrier i [] >>= fun _ => .done ())
    (g := fun _ _ => ())
    (t := fun i => [.recv ⟨.barrier, i, r⟩ (.elements [])])
    (fun _ i _ => (h.follows_receiveFrom .barrier i (show ([] : List α).length = [].length from rfl)).bind (.done ())) ()
  rwa [← List.map_eq_flatMap] at hloop

end View

end EsalsaMpi
