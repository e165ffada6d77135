import EsalsaMpi.Backend.Member.Coordinators

/-!
# Rows of broadcasts and barriers

In `EMPI_Bcast` the root sends its buffer to the coordinators of the other
clusters, and in each cluster the root or the coordinator broadcasts it.  The
messages of successive broadcasts and barriers over the wide area have the same
tag, and the members are in different calls at the same time; since the receives
name the source, every member still gets what the root of the call has sent, if it fits
into a message (`System.bcasts_deliver_iff`).
-/

namespace EsalsaMpi

open ProcessNetwork

namespace Empi

section Programs

variable {α : Type} (clusterCount : Nat) (p : Process) (c : Communicator)

/-- `EMPI_Bcast`. -/
def bcast (pk : Packing α) (type : Int) (buffer : List α) (root : Nat) : Caller α (List α) :=
  if c.commIsLocal then
    pmpiBcast c root buffer
  else if c.globalRank = root then do
    bcastMessages pk p c clusterCount buffer
    pmpiBcast c c.localRank buffer
  else if rankIsLocal p c root then do
    let rank ← .ofOption (c.getLocalRank root)
    pmpiBcast c rank buffer
  else do
    let buffer ←
      if c.myCoordinator = some c.globalRank then receiveMessage pk type c buffer root bcastTag
      else .done buffer
    let rank ← .ofOption (c.myCoordinator.bind fun rank => c.getLocalRank rank)
    pmpiBcast c rank buffer

/-- One action of a barrier. -/
def barrierAct (buffer : List UInt8) : BarrierAction → Caller α (List UInt8)
  | .enter _ => enterBarrier c >>= fun _ => .done buffer
  | .leave _ => leaveBarrier c >>= fun _ => .done buffer
  | .receive i => do
    let source ← .ofOption c.tables.coordinators[i]?
    receiveMessage bytePacking empiByte c buffer source barrierTag
  | .bcast i =>
    if i = p.clusterRank then
      .done buffer
    else do
      let m ← .ofOption (bcastSend bytePacking p.pid buffer c i)
      sendWide c m
      .done buffer
  | .send => do
    let dest ← .ofOption c.tables.coordinators[0]?
    sendMessage bytePacking p c buffer dest barrierTag
    .done buffer
  | .await => do
    let source ← .ofOption c.tables.coordinators[0]?
    receiveMessage bytePacking empiByte c buffer source bcastTag

/-- `EMPI_Barrier`, as a process. -/
def barrier : Caller α Unit := do
  let _ ← (empiBarrier clusterCount c).foldlM (barrierAct p c) [42]
  .done ()

end Programs

end Empi

/-- `EMPI_Bcast` of elements that `pk` packs, from the rank `root`, with what is in the
buffers of the members, or `EMPI_Barrier`. -/
inductive BcastCall (α : Type) where
  | bcast (pk : Packing α) (type : Int) (root : Nat) (buffer : Nat → List α)
  | barrier

namespace BcastCall

variable {α : Type}

/-- What a member runs. -/
def body (clusterCount : Nat) : BcastCall α → Nat → Process → Communicator → Caller α (List α)
  | bcast pk type root buffer, r, p, c => Empi.bcast clusterCount p c pk type (buffer r) root
  | barrier, _, p, c => Empi.barrier clusterCount p c >>= fun _ => .done []

/-- The call is as MPI asks: the root is a member, and all have room for as many
elements. -/
def Legal (size : Nat) : BcastCall α → Prop
  | bcast pk _ root buffer =>
    pk.Lawful ∧ root < size ∧ ∀ r < size, (buffer r).length = (buffer root).length
  | barrier => True

/-- What is broadcast fits into a message. -/
def Sendable : BcastCall α → Prop
  | bcast pk _ root buffer => pk.Sendable (buffer root).length
  | barrier => True

/-- What is in every buffer after the call: what the root had. -/
def delivered : BcastCall α → List α
  | bcast _ _ root buffer => buffer root
  | barrier => []

end BcastCall

/-! ### What a member does -/

section Spanning

variable {members : List Pid} {count : Nat}

theorem clustersIn_of_spans (hspans : SpansInOrder members count) :
    clustersIn members = List.range count := hspans

/-- A communicator that spans several clusters has members in different ones. -/
theorem not_oneCluster_of_spans (hspans : SpansInOrder members count) (hcount : 1 < count) :
    ¬ OneCluster members := by
  rintro ⟨_, hsame⟩
  obtain ⟨q, hq, hq0⟩ := exists_coordinator hspans (Nat.zero_lt_of_lt hcount)
  obtain ⟨q', hq', hq1⟩ := exists_coordinator hspans hcount
  have heq := hsame q (List.mem_of_getElem? hq) q' (List.mem_of_getElem? hq')
  omega

end Spanning

namespace View

variable {α β : Type} {pk : Packing α} {type : Int} {members : List Pid} {n r root count : Nat}
  {p : Process} {c : Communicator}

theorem commIsLocal_eq_false (h : View members n r p c) (hremote : ¬ OneCluster members) :
    c.commIsLocal = false := by
  rw [← Bool.not_eq_true, h.commIsLocal]
  exact hremote

/-- It takes the route over the wide area. -/
theorem not_commIsLocal (h : View members n r p c) (hremote : ¬ OneCluster members) :
    ¬ c.commIsLocal = true := by
  rw [h.commIsLocal_eq_false hremote]
  exact Bool.false_ne_true

/-- The root of the own cluster is found by its rank in the library. -/
theorem getLocalRank_root (h : View members n r p c) {root : Nat → Nat}
    (hroot : LocalRoot members root) :
    ∃ k, c.getLocalRank (root r) = some k ∧ c.peers[k]? = some (root r) :=
  h.exists_localRank (hroot r h.rank_lt).1

/-- `messaging_bcast` is what the root of a fan-out sends. -/
theorem follows_fanOut (h : View members n r p c) (hpk : pk.Lawful)
    (hspans : SpansInOrder members count) {buf : List α} (hsend : pk.Sendable buf.length) :
    Follows (bcastMessages (β := β) pk p c count buf) (sendsOf Lane.source r
      (fanOut (β := β) pk members n opcodeCollectiveBcast bcastTag buf r)) () := by
  rw [sendsOf_fanOut, if_pos rfl, clustersIn_of_spans hspans]
  exact h.follows_bcastMessages hpk hspans hsend

/-- **The part of a member in a broadcast.**  The root sends to the coordinators, and
the root of each cluster broadcasts in it. -/
theorem follows_bcast (h : View members n r p c) (hpk : pk.Lawful)
    (hspans : SpansInOrder members count) (hremote : ¬ OneCluster members)
    (hroot : root < members.length) {buffer : Nat → List α}
    (hsend : pk.Sendable (buffer root).length)
    (hlength : (buffer r).length = (buffer root).length) :
    Follows (Empi.bcast count p c pk type (buffer r) root)
      (partOf Lane.source Lane.dest r
        [fanOut pk members n opcodeCollectiveBcast bcastTag (buffer root) root,
          bcastBlock members (rootFor members root) fun _ => buffer root]) (buffer root) := by
  have hlocal := localRoot_rootFor hroot
  rw [partOf_cons, receivesOf_fanOut h.rank_lt, Empi.bcast,
    if_neg (h.not_commIsLocal hremote), h.globalRank]
  by_cases hr : r = root
  · subst hr
    have hself : rootFor members r r = r := if_pos rfl
    have hk : c.peers[c.localRank]? = some (rootFor members r r) := by
      rw [hself]
      exact h.peers_localRank
    rw [if_pos rfl, if_neg (fun h => h.1 rfl), List.append_nil]
    exact (h.follows_fanOut hpk hspans hsend).bind
      (h.follows_pmpiBcast hlocal hk rfl fun _ => rfl)
  · rw [if_neg hr, sendsOf_fanOut, if_neg hr, List.nil_append, h.rankIsLocal_eq hroot]
    obtain ⟨k, hrank, hk⟩ := h.getLocalRank_root hlocal
    by_cases hcluster : clusterAt members root = clusterAt members r
    · have hself : rootFor members root r = root := if_pos hcluster.symm
      rw [hself] at hrank
      rw [if_pos (decide_eq_true hcluster), if_neg (fun h => h.1 hcluster.symm), List.nil_append,
        hrank]
      exact h.follows_pmpiBcast hlocal hk hlength fun heq => absurd (heq.symm.trans hself) hr
    · have hself : rootFor members root r = coordinatorFor members r :=
        if_neg (Ne.symm hcluster)
      rw [hself] at hrank
      rw [if_neg (by simpa using hcluster), h.myCoordinator]
      by_cases hown : coordinatorFor members r = r
      · rw [if_pos (congrArg some hown), if_pos ⟨Ne.symm hcluster, hown⟩]
        refine (h.follows_receiveMessage hpk opcodeCollectiveBcast hsend hlength bcastTag
          root).bind ?_
        rw [show ((some (coordinatorFor members r)).bind fun rank =>
          c.getLocalRank rank) = some k from hrank]
        exact h.follows_pmpiBcast hlocal hk rfl fun _ => rfl
      · rw [if_neg fun heq => hown (Option.some.inj heq), if_neg fun h => hown h.2,
          List.nil_append]
        show Follows (.ofOption _ >>= fun rank => pmpiBcast c rank (buffer r)) _ _
        rw [show ((some (coordinatorFor members r)).bind fun rank =>
          c.getLocalRank rank) = some k from hrank]
        exact h.follows_pmpiBcast hlocal hk hlength fun heq => absurd (hself.symm.trans heq) hown

end View

/-! ### Barriers -/

/-- The byte of a barrier fits into a message. -/
theorem sendable_barrier : bytePacking.Sendable ([42] : List UInt8).length := by decide

/-- The messages of a barrier. -/
def barrierBlocks {α : Type} (members : List Pid) (n : Nat) : List (List (Lane × Packet α)) :=
  [barrierBlock members,
    fanIn bytePacking members n opcodeData barrierTag (fun _ => [42]) (coordinatorOf members 0),
    fanOut bytePacking members n opcodeCollectiveBcast bcastTag [42] (coordinatorOf members 0),
    barrierBlock members]

/-- What rank `r` sends or receives in an action of a barrier. -/
def barrierTrace {α : Type} (members : List Pid) (n r : Nat) :
    BarrierAction → List (Action Lane (Packet α))
  | .enter _ => sendsOf Lane.source r (barrierBlock members)
  | .leave _ => receivesOf Lane.dest r (barrierBlock members)
  | .receive i =>
    [.recv ⟨.wideArea barrierTag, coordinatorOf members i, r⟩ (.wideArea (wideMessage bytePacking
      members n opcodeData barrierTag [42] (coordinatorOf members i) r))]
  | .bcast i =>
    if i ≠ clusterAt members r then
      [.send ⟨.wideArea bcastTag, r, coordinatorOf members i⟩ (.wideArea (wideMessage bytePacking
        members n opcodeCollectiveBcast bcastTag [42] r (coordinatorOf members i)))]
    else
      []
  | .send =>
    [.send ⟨.wideArea barrierTag, r, coordinatorOf members 0⟩ (.wideArea (wideMessage bytePacking
      members n opcodeData barrierTag [42] r (coordinatorOf members 0)))]
  | .await =>
    [.recv ⟨.wideArea bcastTag, coordinatorOf members 0, r⟩ (.wideArea (wideMessage bytePacking
      members n opcodeCollectiveBcast bcastTag [42] (coordinatorOf members 0) r))]

section Barriers

variable {α : Type} {members : List Pid} {n r count : Nat} {p : Process} {c : Communicator}

/-- A loop from one on is a loop that does nothing at zero. -/
theorem flatMap_fromOne {β : Type} (hcount : 0 < count) (f : Nat → List β) :
    (fromOne count).flatMap f = (List.range count).flatMap fun k => if k ≠ 0 then f k else [] := by
  obtain ⟨m, rfl⟩ := Nat.exists_eq_succ_of_ne_zero hcount.ne'
  rw [List.range_succ_eq_map, List.flatMap_cons, fromOne, Nat.succ_sub_one, List.flatMap_map,
    List.flatMap_map]
  simp

/-- **The actions over the wide area** are the part of a member in the messages to the
first coordinator and in its broadcast. -/
theorem trace_wideAreaBarrier (hspans : SpansInOrder members count) (hcount : 0 < count)
    (hr : r < members.length) :
    (wideAreaBarrier count (Server.tablesSpec members) count r).flatMap
        (barrierTrace (α := α) members n r) =
      sendsOf Lane.source r (fanIn bytePacking members n opcodeData barrierTag (fun _ => [42])
          (coordinatorOf members 0)) ++
        receivesOf Lane.dest r (fanIn bytePacking members n opcodeData barrierTag (fun _ => [42])
          (coordinatorOf members 0)) ++
        (sendsOf Lane.source r (fanOut bytePacking members n opcodeCollectiveBcast bcastTag [42]
          (coordinatorOf members 0)) ++
        receivesOf Lane.dest r (fanOut bytePacking members n opcodeCollectiveBcast bcastTag [42]
          (coordinatorOf members 0))) := by
  have hzero := View.clusterAt_coordinatorOf hspans hcount
  have hclusters := clustersIn_of_spans hspans
  rw [sendsOf_fanIn hr, receivesOf_fanIn, sendsOf_fanOut, receivesOf_fanOut hr, hzero, hclusters,
    wideAreaBarrier, getElem?_coordinators_of_spans hspans hcount]
  by_cases hfirst : r = coordinatorOf members 0
  · have hcluster : clusterAt members r = 0 := by rw [hfirst, hzero]
    rw [if_pos (congrArg some hfirst.symm), if_neg fun h => h.1 hcluster, if_pos hfirst,
      if_pos hfirst, List.flatMap_append, List.flatMap_map, List.flatMap_map,
      flatMap_fromOne hcount, List.nil_append, if_neg fun h => h.1 hcluster, List.append_nil]
    simp only [barrierTrace, hcluster, ← hfirst]
  · rw [if_neg fun h => hfirst (Option.some.inj h).symm, if_neg hfirst, if_neg hfirst,
      List.append_nil, List.nil_append, List.flatMap_assoc, flatMap_fromOne hcount,
      flatMap_single (clusterAt members r) List.nodup_range,
      if_pos (List.mem_range.mpr (View.clusterAt_lt hspans hr)),
      getElem?_coordinators_of_spans hspans (View.clusterAt_lt hspans hr), ← coordinatorFor]
    · by_cases hne : clusterAt members r = 0
      · simp [hne]
      · by_cases hown : coordinatorFor members r = r
        · rw [if_pos hne, if_pos (congrArg some hown), if_pos ⟨hne, hown⟩, if_pos ⟨hne, hown⟩]
          rfl
        · rw [if_pos hne, if_neg fun h => hown (Option.some.inj h), if_neg fun h => hown h.2,
            if_neg fun h => hown h.2]
          rfl
    · intro k hk hne
      have hlt := List.mem_range.mp hk
      have hother : coordinatorOf members k ≠ r := fun heq =>
        hne ((coordinatorOf_eq_iff (hclusters ▸ hk)).mp heq).1
      rw [getElem?_coordinators_of_spans hspans hlt,
        if_neg (fun h => hother (Option.some.inj h))]
      split <;> rfl

/-- A barrier counts through the clusters. -/
theorem lt_of_mem_wideAreaBarrier {tables : Tables} {i : Nat}
    (h : .receive i ∈ wideAreaBarrier count tables count r ∨
      .bcast i ∈ wideAreaBarrier count tables count r) : i < count := by
  have hone : ∀ {j}, j ∈ fromOne count → j < count := by
    intro j hj
    obtain ⟨k, hk, rfl⟩ := List.mem_map.mp hj
    have := List.mem_range.mp hk
    omega
  unfold wideAreaBarrier at h
  split at h
  · simp only [List.mem_append, List.mem_map, BarrierAction.receive.injEq,
      BarrierAction.bcast.injEq, exists_eq_right, reduceCtorEq, and_false, exists_false, or_false,
      false_or] at h
    rcases h with h | h
    · exact hone h
    · exact List.mem_range.mp h
  · simp only [List.mem_flatMap] at h
    rcases h with ⟨k, _, h⟩ | ⟨k, _, h⟩
    · split at h <;> simp at h
    · split at h <;> simp at h

/-- **One action of a barrier**, which leaves the buffer as it is. -/
theorem View.follows_barrierAct (h : View members n r p c) (hspans : SpansInOrder members count)
    (hcount : 0 < count) {a : BarrierAction}
    (ha : ∀ i, a = .receive i ∨ a = .bcast i → i < count) :
    Follows (Empi.barrierAct p c [42] a) (barrierTrace (α := α) members n r a) [42] := by
  cases a with
  | enter second =>
      have hsends := h.follows_enterBarrier.bind
        (f := fun _ => (.done [42] : Caller α (List UInt8))) (.done _)
      rwa [List.append_nil] at hsends
  | leave second =>
      have hreceives := h.follows_leaveBarrier.bind
        (f := fun _ => (.done [42] : Caller α (List UInt8))) (.done _)
      rwa [List.append_nil] at hreceives
  | receive i =>
      rw [Empi.barrierAct, h.getElem?_coordinators hspans (ha i (Or.inl rfl))]
      exact h.follows_receiveMessage bytePacking_lawful opcodeData sendable_barrier rfl
        barrierTag _
  | bcast i =>
      have hi := ha i (Or.inr rfl)
      rw [Empi.barrierAct, barrierTrace, h.clusterRank]
      by_cases hown : i = clusterAt members r
      · rw [if_pos hown, if_neg (not_not_intro hown)]
        exact .done _
      · rw [if_neg hown, if_pos hown, bcastSend, h.getElem?_coordinators hspans hi,
          Option.bind_some, h.doSend_eq bytePacking_lawful sendable_barrier _ _
            (coordinatorOf_lt hspans hi)]
        show Follows (sendWide c _ >>= fun _ => .done [42]) _ _
        rw [← h.globalRank]
        exact .send (.done _)
  | send =>
      rw [Empi.barrierAct, h.getElem?_coordinators hspans hcount]
      have hsend := (h.follows_sendMessage (β := α) bytePacking_lawful sendable_barrier
        barrierTag (coordinatorOf_lt hspans hcount)).bind
          (f := fun _ => (.done [42] : Caller α (List UInt8))) (.done _)
      rwa [List.append_nil] at hsend
  | await =>
      rw [Empi.barrierAct, h.getElem?_coordinators hspans hcount]
      exact h.follows_receiveMessage bytePacking_lawful opcodeCollectiveBcast sendable_barrier
        rfl bcastTag _

/-- **The part of a member in a barrier.** -/
theorem View.follows_barrier (h : View members n r p c) (hspans : SpansInOrder members count)
    (hcount : 1 < count) :
    Follows (Empi.barrier count p c)
      (partOf Lane.source Lane.dest r (barrierBlocks (α := α) members n)) () := by
  have hpos := Nat.zero_lt_of_lt hcount
  have hprogram : empiBarrier count c =
      [.enter false, .leave false] ++ wideAreaBarrier count (Server.tablesSpec members) count r ++
        [.enter true, .leave true] := by
    rw [empiBarrier, h.commIsLocal_eq_false (not_oneCluster_of_spans hspans hcount),
      h.clusterCount hspans, h.mirrors.tables, h.globalRank]
    rfl
  have htrace : (empiBarrier count c).flatMap (barrierTrace (α := α) members n r) =
      partOf Lane.source Lane.dest r (barrierBlocks members n) := by
    rw [hprogram, List.flatMap_append, List.flatMap_append,
      trace_wideAreaBarrier hspans hpos h.rank_lt]
    simp only [barrierBlocks, partOf_cons, partOf_nil, List.flatMap_cons, List.flatMap_nil,
      barrierTrace, List.append_nil, List.append_assoc]
  have hindex : ∀ a ∈ empiBarrier count c, ∀ i, a = .receive i ∨ a = .bcast i → i < count := by
    intro a ha i hi
    suffices hmem : .receive i ∈ wideAreaBarrier count (Server.tablesSpec members) count r ∨
        .bcast i ∈ wideAreaBarrier count (Server.tablesSpec members) count r from
      lt_of_mem_wideAreaBarrier hmem
    rw [hprogram] at ha
    rcases hi with rfl | rfl
    · exact Or.inl (by simpa using ha)
    · exact Or.inr (by simpa using ha)
  have hloop : Follows ((empiBarrier count c).foldlM (Empi.barrierAct p c) [42])
      (partOf Lane.source Lane.dest r (barrierBlocks (α := α) members n)) [42] := by
    rw [← htrace]
    exact Follows.foldlM_const fun a ha => h.follows_barrierAct hspans hpos (hindex a ha)
  have hbarrier := hloop.bind (f := fun _ => (.done () : Caller α Unit)) (.done _)
  rwa [List.append_nil] at hbarrier

end Barriers

/-! ### Rows of calls -/

namespace View

variable {α : Type} {members : List Pid} {n r count : Nat} {p : Process} {c : Communicator}

theorem polite_bcast {pk : Packing α} {type : Int} (h : View members n r p c) (buffer : List α)
    (root : Nat) : Polite members n r (Empi.bcast count p c pk type buffer root) := by
  unfold Empi.bcast
  split
  · exact h.polite_pmpiBcast root buffer
  · split
    · exact (h.polite_bcastMessages count buffer).bind fun _ => h.polite_pmpiBcast _ buffer
    · split
      · exact (Keeps.ofOption _).bind fun rank => h.polite_pmpiBcast rank buffer
      · split
        · exact (h.polite_receiveMessage (by decide) buffer root).bind fun buffer =>
            (Keeps.ofOption _).bind fun rank => h.polite_pmpiBcast rank buffer
        · exact (Keeps.done buffer).bind fun buffer =>
            (Keeps.ofOption _).bind fun rank => h.polite_pmpiBcast rank buffer

theorem polite_barrier (h : View members n r p c) :
    Polite members n r (Empi.barrier (α := α) count p c) := by
  refine Keeps.bind (Keeps.foldlM ?_ [42]) fun _ => .done ()
  intro buffer a _
  cases a with
  | enter second => exact h.polite_enterBarrier.bind fun _ => .done buffer
  | leave second => exact h.polite_leaveBarrier.bind fun _ => .done buffer
  | receive i =>
      exact (Keeps.ofOption _).bind fun source =>
        h.polite_receiveMessage (by decide) buffer source
  | bcast i =>
      rw [Empi.barrierAct]
      by_cases hi : i = p.clusterRank
      · rw [if_pos hi]
        exact .done buffer
      · rw [if_neg hi]
        cases hm : bcastSend bytePacking p.pid buffer c i with
        | none => exact .fail
        | some m =>
            obtain ⟨dest, _, hsend⟩ := Option.bind_eq_some_iff.mp hm
            exact (h.polite_sendWide (by decide) hsend).bind fun _ => .done buffer
  | send =>
      exact (Keeps.ofOption _).bind fun dest =>
        (h.polite_sendMessage (by decide) buffer dest).bind fun _ => .done buffer
  | await =>
      exact (Keeps.ofOption _).bind fun source =>
        h.polite_receiveMessage (by decide) buffer source

theorem polite_bcastCall (h : View members n r p c) (call : BcastCall α) :
    Polite members n r (call.body count r p c) := by
  cases call with
  | bcast pk type root buffer => exact h.polite_bcast (buffer r) root
  | barrier => exact h.polite_barrier.bind fun _ => .done []

end View

namespace BcastCall

variable {α : Type} {members : List Pid} {n count : Nat}

/-- The messages of a call. -/
def blocks (members : List Pid) (n : Nat) : BcastCall α → List (List (Lane × Packet α))
  | bcast pk _ root buffer =>
    [fanOut pk members n opcodeCollectiveBcast bcastTag (buffer root) root,
      bcastBlock members (rootFor members root) fun _ => buffer root]
  | barrier => barrierBlocks members n

theorem inside_blocks {call : BcastCall α} (hlegal : call.Legal members.length)
    (hspans : SpansInOrder members count) (hcount : 0 < count) :
    ∀ b ∈ call.blocks members n, Inside members b := by
  intro b hb
  cases call with
  | bcast pk type root buffer =>
      rcases List.mem_cons.mp hb with rfl | hb
      · exact inside_fanOut hlegal.2.1 _
      · rw [List.mem_singleton.mp hb]
        exact inside_libraryBlock _ _ _
  | barrier =>
      have hfirst := View.coordinatorOf_lt hspans hcount
      simp only [blocks, barrierBlocks, List.mem_cons, List.not_mem_nil, or_false] at hb
      rcases hb with rfl | rfl | rfl | rfl
      · exact inside_libraryBlock _ _ _
      · exact inside_fanIn hfirst _
      · exact inside_fanOut hfirst _
      · exact inside_libraryBlock _ _ _

end BcastCall

/-- The members of a communicator whose clusters are all, in order. -/
theorem System.spans_of_reachable {cfg : Server.Config} {order : Server.HashOrder} {s : System}
    {n : Nat} {sc : Server.Communicator} (hreach : System.Reachable cfg order s)
    (hsc : s.server[n]? = some (some sc))
    (hranks : sc.tables.clusterRanks = List.range cfg.numberOfClusters) :
    SpansInOrder sc.tables.members cfg.numberOfClusters := by
  obtain ⟨members, _, hsc'⟩ := (System.inv_of_reachable hreach).communicator n sc hsc
  have htables : sc.tables = Server.tablesSpec members := by
    rw [hsc']
    rfl
  rw [htables] at hranks ⊢
  exact hranks

/-- **The root of a broadcast is stuck** where its buffer does not fit into a message. -/
theorem View.doomed_bcast {α : Type} {pk : Packing α} {type : Int} {members : List Pid}
    {n root count : Nat} {p : Process} {c : Communicator} (h : View members n root p c)
    (hspans : SpansInOrder members count) (hcount : 1 < count) {buffer : List α}
    (hsend : ¬ pk.Sendable buffer.length) :
    Doomed (Empi.bcast count p c pk type buffer root) := by
  rw [Empi.bcast, if_neg (h.not_commIsLocal (not_oneCluster_of_spans hspans hcount)),
    if_pos h.globalRank, bcastMessages_eq_fail hcount hsend]
  exact .fail

/-- **A broadcast or a barrier** is performed, where what is broadcast fits into a message. -/
theorem System.performed_bcast {α : Type} {cfg : Server.Config} {order : Server.HashOrder}
    {s : System} {n : Nat} {sc : Server.Communicator} (hreach : System.Reachable cfg order s)
    (hsc : s.server[n]? = some (some sc))
    (hrunning : ∀ pid ∈ sc.tables.members, (s.processes pid).isSome)
    (hspans : SpansInOrder sc.tables.members cfg.numberOfClusters) {call : BcastCall α}
    (hlegal : call.Legal sc.tables.members.length) (hsend : call.Sendable) :
    Session.Performed sc.tables.members n (fun _ => True)
      (s.caller n sc.tables.members (call.body cfg.numberOfClusters)) fun _ => call.delivered := by
  have hcount : 1 < cfg.numberOfClusters := cfg.one_lt_clusters
  refine performed hreach hsc hrunning (call.blocks sc.tables.members n)
    (fun r p c hview => hview.polite_bcastCall call) ?_
    (BcastCall.inside_blocks hlegal hspans (Nat.zero_lt_of_lt hcount)) fun _ _ => trivial
  intro r p c hview
  cases call with
  | bcast pk type root buffer =>
      obtain ⟨hpk, hroot, hlength⟩ := hlegal
      exact hview.follows_bcast hpk hspans (not_oneCluster_of_spans hspans hcount) hroot hsend
        (hlength r hview.rank_lt)
  | barrier =>
      have hbarrier := (hview.follows_barrier (α := α) hspans hcount).bind
        (f := fun _ => (.done [] : Caller α (List α))) (.done _)
      rwa [List.append_nil] at hbarrier

/-- **Broadcasts and barriers.**  On a communicator that spans all clusters in order,
for every row of broadcasts, each from any root, and barriers: in every run each
member has noted, for the calls that it has returned from, what their roots passed to
them, and the run can go on until all have returned from all, if and only if what is
broadcast fits into a message. -/
theorem System.bcasts_deliver_iff {α : Type} {cfg : Server.Config} {order : Server.HashOrder}
    {s : System} {n : Nat} {sc : Server.Communicator} (hreach : System.Reachable cfg order s)
    (hsc : s.server[n]? = some (some sc))
    (hrunning : ∀ pid ∈ sc.tables.members, (s.processes pid).isSome)
    (hranks : sc.tables.clusterRanks = List.range cfg.numberOfClusters)
    {calls : List (BcastCall α)}
    (hlegal : ∀ call ∈ calls, call.Legal sc.tables.members.length) :
    Session.Delivers sc.tables.members n Session.Eager
        (s.session n sc.tables.members (calls.map (BcastCall.body cfg.numberOfClusters)))
        (fun _ => calls.map BcastCall.delivered) ↔
      ∀ call ∈ calls, call.Sendable := by
  have hspans := spans_of_reachable hreach hsc hranks
  constructor
  · intro hdelivers call hcall
    by_contra hsend
    cases call with
    | bcast pk type root buffer =>
        refine not_delivers hreach hsc hrunning (fun call _ r p c hview =>
          hview.polite_bcastCall call) hcall (hlegal _ hcall).2.1 ?_ _ _ hdelivers
        intro p c hview
        exact hview.doomed_bcast hspans cfg.one_lt_clusters hsend
    | barrier => exact hsend trivial
  · intro hsend
    exact delivers_of_performed hreach hsc hrunning fun call hcall =>
      performed_bcast hreach hsc hrunning hspans (hlegal call hcall) (hsend call hcall)

/-- Two processes broadcast a byte each, with a barrier in between. -/
theorem System.bcasts_deliver_pair :
    Session.Delivers (Server.worldMembers .pair) 0 Session.Eager
      ((System.start .pair System.pairServer).session 0 (Server.worldMembers .pair)
        (([.bcast bytePacking empiByte 1 fun r => [UInt8.ofNat r], .barrier,
          .bcast bytePacking empiByte 0 fun r => [UInt8.ofNat (r + 2)]] :
            List (BcastCall UInt8)).map (BcastCall.body 2)))
      fun _ => [[1], [], [2]] := by
  have hworld : (System.start .pair System.pairServer).server[0]? = some (some
      (Server.Communicator.fresh 0 (Server.tablesSpec (Server.worldMembers .pair)))) := rfl
  refine (System.bcasts_deliver_iff System.reachable_pair hworld System.running_pair
    (by decide) ?_).mpr ?_
  · intro call hcall
    simp only [List.mem_cons, List.not_mem_nil, or_false] at hcall
    rcases hcall with rfl | rfl | rfl
    · exact ⟨bytePacking_lawful, by decide, fun _ _ => rfl⟩
    · trivial
    · exact ⟨bytePacking_lawful, by decide, fun _ _ => rfl⟩
  · intro call hcall
    simp only [List.mem_cons, List.not_mem_nil, or_false] at hcall
    rcases hcall with rfl | rfl | rfl
    · exact bytePacking_sendable.mpr (by decide)
    · trivial
    · exact bytePacking_sendable.mpr (by decide)

/-- The broadcast of `2 ^ 31 - 1` bytes, each 0, from the first process. -/
def longBcast : BcastCall UInt8 :=
  .bcast bytePacking empiByte 0 fun _ => List.replicate (2 ^ 31 - 1) 0

theorem not_sendable_long :
    ¬ bytePacking.Sendable (List.replicate (2 ^ 31 - 1) (0 : UInt8)).length := by
  rw [bytePacking_sendable, List.length_replicate, dataMessageSize, messageHeaderSize]
  omega

/-- Two processes in two clusters do not come to the end of a long broadcast. -/
theorem System.not_bcasts_deliver_long :
    longBcast.Legal (Server.worldMembers .pair).length ∧
      ¬ Session.Delivers (Server.worldMembers .pair) 0 Session.Eager
        ((System.start .pair System.pairServer).session 0 (Server.worldMembers .pair)
          ([longBcast].map (BcastCall.body 2))) fun _ => [longBcast.delivered] := by
  have hworld : (System.start .pair System.pairServer).server[0]? = some (some
      (Server.Communicator.fresh 0 (Server.tablesSpec (Server.worldMembers .pair)))) := rfl
  have hspans : SpansInOrder (Server.worldMembers .pair) 2 :=
    System.spans_of_reachable System.reachable_pair hworld (by decide)
  refine ⟨⟨bytePacking_lawful, by decide, fun _ _ => rfl⟩, ?_⟩
  refine System.not_delivers System.reachable_pair hworld System.running_pair ?_
    (List.mem_singleton_self longBcast) (r := 0) (by decide) ?_ _ _
  · intro call hcall r p c hview
    rw [List.mem_singleton.mp hcall]
    exact hview.polite_bcast _ 0
  · intro p c hview
    exact hview.doomed_bcast hspans Nat.one_lt_two not_sendable_long

end EsalsaMpi
