import EsalsaMpi.Backend.Allgatherv.Result
import EsalsaMpi.Backend.Member.Alltoall
import EsalsaMpi.Library.Recoding

/-!
# Gathering to all

`EMPI_Allgather` computes the displacements for `EMPI_Allgatherv`.  In a row of calls the messages
of `EMPI_Allgatherv` share the lanes of other calls: those between the coordinators have the tag
of the broadcasts, and the last step is a broadcast in each cluster.

On a communicator that spans all clusters in order, all rows of such calls give every member the
blocks of all, if and only if no member that sends anything comes behind a member of a later
cluster, and the counts fit (`System.allgathers_deliver_iff`).  Then the displacements can be
computed too (`AllgatherKind.inRange_of_total`).
-/

namespace EsalsaMpi

open ProcessNetwork

/-- The lane of a link. -/
def Link.lane (c : Link) : Lane :=
  match c.route with
  | .gather => ⟨.library allgathervTag, c.source, c.dest⟩
  | .exchange => ⟨.wideArea bcastTag, c.source, c.dest⟩
  | .bcast => ⟨.bcast, c.source, c.dest⟩

@[simp] theorem Link.source_lane (c : Link) : c.lane.source = c.source := by
  obtain ⟨route, s, d⟩ := c
  cases route <;> rfl

@[simp] theorem Link.dest_lane (c : Link) : c.lane.dest = c.dest := by
  obtain ⟨route, s, d⟩ := c
  cases route <;> rfl

namespace Empi

variable {α : Type} (clusterCount : Nat) (p : Process) (c : Communicator) (t : ElementType α)

/-- `EMPI_Allgatherv`, where `pmpi` is the call of the library. -/
def allgatherv (pmpi : Caller α (Memory α)) (sendbuf : List α) (recvbuf fresh : Memory α)
    (recvcounts displs : Nat → Nat) : Caller α (Memory α) :=
  if c.commIsLocal then pmpi
  else (EsalsaMpi.allgatherv t clusterCount p c recvcounts sendbuf recvbuf fresh
    displs).recode Link.lane id some

/-- `EMPI_Allgather`, where `pmpi` is the call of the library. -/
def allgather (pmpi : Caller α (Memory α)) (sendbuf : List α) (recvbuf fresh : Memory α)
    (recvcount : Nat) : Caller α (Memory α) :=
  if c.commIsLocal then pmpi
  else do
    let displs ← .ofOption (displacements recvcount c.globalSize)
    allgatherv clusterCount p c t pmpi sendbuf recvbuf fresh (fun _ => recvcount) fun i =>
      (displs i).toNat

end Empi

/-! ### The blocks of messages -/

namespace Layout

variable {α : Type} (L : Layout) (sendbuf : Nat → List α) (message : Nat → Nat → DataMessage)
  (whole : List α)

/-- From the members to their coordinators. -/
def gatherBlock : List (Link × Packet α) :=
  (List.range L.size).flatMap fun i =>
    if ¬ L.IsCoordinator i then
      [(⟨.gather, i, L.coordinator (L.cluster i)⟩, .elements (sendbuf i))]
    else
      []

/-- From the coordinator of cluster `i` to the others. -/
def segmentBlock (i : Nat) : List (Link × Packet α) :=
  (List.range L.clusters).flatMap fun j =>
    if j ≠ i then
      [(⟨.exchange, L.coordinator i, L.coordinator j⟩, .wideArea (message i j))]
    else
      []

/-- From the coordinators to their members. -/
def wholeBlock : List (Link × Packet α) :=
  (List.range L.size).flatMap fun i =>
    if ¬ L.IsCoordinator i then
      [(⟨.bcast, L.coordinator (L.cluster i), i⟩, .elements whole)]
    else
      []

/-- All messages. -/
def blocks : List (List (Link × Packet α)) :=
  L.gatherBlock sendbuf :: ((List.range L.clusters).map (L.segmentBlock message) ++
    [L.wholeBlock whole])

variable {L sendbuf message whole} {r i : Nat}

/-- The members that a coordinator gathers from. -/
theorem not_isCoordinator_iff (hi : i < L.size) :
    ¬ L.IsCoordinator i ∧ L.coordinator (L.cluster i) = r ↔
      L.IsCoordinator r ∧ L.cluster i = L.cluster r ∧ i ≠ r := by
  constructor
  · rintro ⟨hcoordinator, rfl⟩
    have hown := isCoordinator_coordinator (L.cluster_lt i hi)
    exact ⟨hown, (L.cluster_coordinator _ (L.cluster_lt i hi)).symm, hcoordinator⟩
  · rintro ⟨hr, hcluster, hne⟩
    have hsame := (cluster_eq_iff hr hi).mp hcluster
    exact ⟨fun hcoordinator => hne (hcoordinator.trans hsame.symm), hsame.symm⟩

theorem part_gatherBlock (hr : r < L.size) :
    sendsOf Link.source r (L.gatherBlock sendbuf) ++
      receivesOf Link.dest r (L.gatherBlock sendbuf) = L.gatherTrace sendbuf r := by
  have hsends : sendsOf Link.source r (L.gatherBlock sendbuf) =
      if ¬ L.IsCoordinator r then
        [.send ⟨.gather, r, L.coordinator (L.cluster r)⟩ (.elements (sendbuf r))] else [] := by
    simp only [gatherBlock, sendsOf_flatMap, sendsOf_ite]
    rw [flatMap_range_single r fun i _ hi => if_neg fun h => hi h.2, if_pos hr]
    simp only [and_true]
  have hreceives : receivesOf Link.dest r (L.gatherBlock sendbuf) =
      (List.range L.size).flatMap fun i =>
        if L.IsCoordinator r ∧ L.cluster i = L.cluster r ∧ i ≠ r then
          [.recv ⟨.gather, i, L.coordinator (L.cluster i)⟩ (.elements (sendbuf i))] else [] := by
    simp only [gatherBlock, receivesOf_flatMap, receivesOf_ite]
    refine List.flatMap_congr fun i hi => ?_
    exact if_congr (not_isCoordinator_iff (List.mem_range.mp hi)) rfl rfl
  rw [hsends, hreceives, gatherTrace]
  by_cases hcoordinator : L.IsCoordinator r
  · rw [if_neg (not_not.mpr hcoordinator), if_pos hcoordinator, List.nil_append]
    refine List.flatMap_congr fun i hi => ?_
    by_cases hin : L.cluster i = L.cluster r ∧ i ≠ r
    · have hsame := (cluster_eq_iff hcoordinator (List.mem_range.mp hi)).mp hin.1
      rw [if_pos ⟨hcoordinator, hin⟩, if_pos hin, ← hsame]
    · rw [if_neg fun h => hin h.2, if_neg hin]
  · rw [if_pos hcoordinator, if_neg hcoordinator, List.flatMap_eq_nil_iff.mpr fun i _ =>
      if_neg fun h => hcoordinator h.1, List.append_nil]

theorem part_wholeBlock (hr : r < L.size) :
    sendsOf Link.source r (L.wholeBlock whole) ++
      receivesOf Link.dest r (L.wholeBlock whole) = L.bcastTrace whole r := by
  have hsends : sendsOf Link.source r (L.wholeBlock whole) =
      (List.range L.size).flatMap fun i =>
        if L.IsCoordinator r ∧ L.cluster i = L.cluster r ∧ i ≠ r then
          [.send ⟨.bcast, L.coordinator (L.cluster i), i⟩ (.elements whole)] else [] := by
    simp only [wholeBlock, sendsOf_flatMap, sendsOf_ite]
    refine List.flatMap_congr fun i hi => ?_
    exact if_congr (not_isCoordinator_iff (List.mem_range.mp hi)) rfl rfl
  have hreceives : receivesOf Link.dest r (L.wholeBlock whole) =
      if ¬ L.IsCoordinator r then
        [.recv ⟨.bcast, L.coordinator (L.cluster r), r⟩ (.elements whole)] else [] := by
    simp only [wholeBlock, receivesOf_flatMap, receivesOf_ite]
    rw [flatMap_range_single r fun i _ hi => if_neg fun h => hi h.2, if_pos hr]
    simp only [and_true]
  rw [hsends, hreceives, bcastTrace]
  by_cases hcoordinator : L.IsCoordinator r
  · rw [if_neg (not_not.mpr hcoordinator), if_pos hcoordinator, List.append_nil]
    refine List.flatMap_congr fun i hi => ?_
    by_cases hin : L.cluster i = L.cluster r ∧ i ≠ r
    · have hsame := (cluster_eq_iff hcoordinator (List.mem_range.mp hi)).mp hin.1
      rw [if_pos ⟨hcoordinator, hin⟩, if_pos hin, ← hsame]
    · rw [if_neg fun h => hin h.2, if_neg hin]
  · rw [if_pos hcoordinator, if_neg hcoordinator, List.flatMap_eq_nil_iff.mpr fun i _ =>
      if_neg fun h => hcoordinator h.1, List.nil_append]

theorem part_segmentBlock (hr : r < L.size) (hi : i < L.clusters) :
    sendsOf Link.source r (L.segmentBlock (α := α) message i) ++
      receivesOf Link.dest r (L.segmentBlock (α := α) message i) =
        if L.IsCoordinator r then L.segmentTrace message r i else [] := by
  have hcoordinator : L.coordinator i = r ↔ L.IsCoordinator r ∧ i = L.cluster r := by
    constructor
    · rintro rfl
      exact ⟨isCoordinator_coordinator hi, (L.cluster_coordinator i hi).symm⟩
    · rintro ⟨hr, rfl⟩
      exact hr.symm
  have hsends : sendsOf Link.source r (L.segmentBlock (α := α) message i) =
      if L.IsCoordinator r ∧ i = L.cluster r then
        (List.range L.clusters).flatMap fun j =>
          if j ≠ i then
            [.send ⟨.exchange, L.coordinator i, L.coordinator j⟩ (.wideArea (message i j))]
          else []
      else [] := by
    simp only [segmentBlock, sendsOf_flatMap, sendsOf_ite, hcoordinator]
    by_cases hown : L.IsCoordinator r ∧ i = L.cluster r
    · rw [if_pos hown]
      exact List.flatMap_congr fun j _ => if_congr (and_iff_left hown) rfl rfl
    · rw [if_neg hown]
      exact List.flatMap_eq_nil_iff.mpr fun j _ => if_neg fun h => hown h.2
  have hreceives : receivesOf Link.dest r (L.segmentBlock (α := α) message i) =
      if L.IsCoordinator r ∧ i ≠ L.cluster r then
        [.recv ⟨.exchange, L.coordinator i, r⟩ (.wideArea (message i (L.cluster r)))]
      else [] := by
    simp only [segmentBlock, receivesOf_flatMap, receivesOf_ite]
    rw [flatMap_range_single (L.cluster r), if_pos (L.cluster_lt r hr)]
    · by_cases hown : L.IsCoordinator r
      · rw [← show r = L.coordinator (L.cluster r) from hown]
        refine if_congr ?_ rfl rfl
        simp [hown, ne_comm]
      · rw [if_neg fun h => hown h.2.symm, if_neg fun h => hown h.1]
    · intro j hj hne
      refine if_neg fun h => hne ?_
      rw [← h.2]
      exact (L.cluster_coordinator j hj).symm
  rw [hsends, hreceives, segmentTrace]
  by_cases hown : L.IsCoordinator r
  · by_cases hcluster : i = L.cluster r
    · have hself : L.coordinator i = r := hcoordinator.mpr ⟨hown, hcluster⟩
      simp only [hown, hcluster, and_self, if_true, ne_eq, not_true, and_false, if_false,
        List.append_nil, hcluster ▸ hself]
    · simp only [hown, hcluster, and_false, if_false, if_true, ne_eq, not_false_eq_true,
        and_self, List.nil_append]
  · simp only [hown, false_and, if_false, List.append_nil]

/-- **The blocks** are what the members do. -/
theorem partOf_blocks (hr : r < L.size) :
    partOf Link.source Link.dest r (L.blocks sendbuf message whole) =
      L.trace sendbuf message whole r := by
  have hexchange : partOf Link.source Link.dest r
      ((List.range L.clusters).map (L.segmentBlock (α := α) message)) =
        L.exchangeTrace message r := by
    rw [partOf, List.flatMap_map, exchangeTrace]
    by_cases hcoordinator : L.IsCoordinator r
    · rw [if_pos hcoordinator]
      refine List.flatMap_congr fun i hi => ?_
      rw [part_segmentBlock hr (List.mem_range.mp hi), if_pos hcoordinator]
    · rw [if_neg hcoordinator]
      refine List.flatMap_eq_nil_iff.mpr fun i hi => ?_
      rw [part_segmentBlock hr (List.mem_range.mp hi), if_neg hcoordinator]
  rw [blocks, partOf_cons, partOf_append, hexchange, part_gatherBlock hr, partOf_cons,
    part_wholeBlock hr, partOf_nil, List.append_nil, trace]

/-- All messages are among the members. -/
theorem inside_blocks : ∀ b ∈ L.blocks sendbuf message whole, ∀ t ∈ b,
    t.1.source < L.size ∧ t.1.dest < L.size := by
  have hcoordinator : ∀ i < L.size, L.coordinator (L.cluster i) < L.size := fun i hi =>
    L.coordinator_lt _ (L.cluster_lt i hi)
  intro b hb t ht
  rcases List.mem_cons.mp hb with rfl | hb
  · obtain ⟨i, hi, ht⟩ := List.mem_flatMap.mp ht
    have hi := List.mem_range.mp hi
    split at ht
    · rw [List.mem_singleton.mp ht]
      exact ⟨hi, hcoordinator i hi⟩
    · cases ht
  · rcases List.mem_append.mp hb with hb | hb
    · obtain ⟨i, hi, rfl⟩ := List.mem_map.mp hb
      obtain ⟨j, hj, ht⟩ := List.mem_flatMap.mp ht
      split at ht
      · rw [List.mem_singleton.mp ht]
        exact ⟨L.coordinator_lt i (List.mem_range.mp hi), L.coordinator_lt j (List.mem_range.mp hj)⟩
      · cases ht
    · rw [List.mem_singleton.mp hb] at ht
      obtain ⟨i, hi, ht⟩ := List.mem_flatMap.mp ht
      have hi := List.mem_range.mp hi
      split at ht
      · rw [List.mem_singleton.mp ht]
        exact ⟨hcoordinator i hi, hi⟩
      · cases ht

/-- Only the messages between clusters of the layout matter. -/
theorem trace_congr {message' : Nat → Nat → DataMessage}
    (h : ∀ k < L.clusters, ∀ j < L.clusters, message k j = message' k j) (hr : r < L.size) :
    L.trace sendbuf message whole r = L.trace sendbuf message' whole r := by
  have hsegment : ∀ i < L.clusters,
      L.segmentTrace (α := α) message r i = L.segmentTrace message' r i := by
    intro i hi
    unfold segmentTrace
    rw [h i hi (L.cluster r) (L.cluster_lt r hr)]
    split
    · refine List.flatMap_congr fun j hj => ?_
      rw [h i hi j (List.mem_range.mp hj)]
    · rfl
  have hexchange : L.exchangeTrace (α := α) message r = L.exchangeTrace message' r := by
    unfold exchangeTrace
    split
    · exact List.flatMap_congr fun i hi => hsegment i (List.mem_range.mp hi)
    · rfl
  rw [trace, trace, hexchange]

end Layout

/-! ### The calls -/

/-- What the members pass to `EMPI_Allgatherv` or `EMPI_Allgather`, but for the buffers: a
datatype, counts, and displacements that may differ between the members. -/
inductive AllgatherKind (α : Type) where
  | allgatherv (type : ElementType α) (recvcounts : Nat → Nat) (displs : Nat → Nat → Nat)
  | allgather (type : ElementType α) (recvcount : Nat)

namespace AllgatherKind

variable {α : Type}

def type : AllgatherKind α → ElementType α
  | allgatherv type _ _ => type
  | allgather type _ => type

/-- How many elements each rank sends. -/
def recvcounts : AllgatherKind α → Nat → Nat
  | allgatherv _ recvcounts _ => recvcounts
  | allgather _ recvcount => fun _ => recvcount

/-- Where each rank is to get them. -/
def displs : AllgatherKind α → Nat → Nat → Nat
  | allgatherv _ _ displs => displs
  | allgather _ recvcount => fun _ i => recvcount * i

/-- The blocks that `EMPI_Allgather` computes the places of do not overlap. -/
theorem blocksDisjoint_scaled (members : List Pid) (count : Nat) :
    BlocksDisjoint members (fun _ => count) fun i => count * i := by
  intro i _ j _ hij t ht u hu heq
  have hdiv : ∀ k v : Nat, v < count → (count * k + v) / count = k := fun k v hv => by
    rw [Nat.mul_add_div (Nat.zero_lt_of_lt hv), Nat.div_eq_of_lt hv, Nat.add_zero]
  apply hij
  rw [← hdiv i t ht, ← hdiv j u hu]
  exact congrArg (· / count) heq

/-- All displacements that `EMPI_Allgather` computes fit in an `int`. -/
def InRange (size : Nat) : AllgatherKind α → Prop
  | allgatherv _ _ _ => True
  | allgather _ recvcount => ∀ i < size, recvcount * i < 2 ^ 31

/-- The elements can be packed, and no place is received to twice. -/
def Legal (members : List Pid) (kind : AllgatherKind α) : Prop :=
  kind.type.pk.Lawful ∧ ∀ r < members.length, BlocksDisjoint members kind.recvcounts (kind.displs r)

/-- No member that sends anything comes behind a member of a later cluster, and the counts fit. -/
def Fits (clusterCount : Nat) (members : List Pid) (kind : AllgatherKind α) : Prop :=
  Ordered members kind.recvcounts ∧ CountsFit kind.type clusterCount members kind.recvcounts

/-- Where the number of all elements is an `int`, so are the displacements. -/
theorem inRange_of_total {size : Nat} {kind : AllgatherKind α}
    (htotal : ∑ i ∈ Finset.range size, kind.recvcounts i < 2 ^ 31) : kind.InRange size := by
  cases kind with
  | allgatherv type recvcounts displs => trivial
  | allgather type recvcount =>
      change ∑ i ∈ Finset.range size, recvcount < 2 ^ 31 at htotal
      rw [Finset.sum_const_nat fun _ _ => rfl, Finset.card_range, Nat.mul_comm] at htotal
      intro i hi
      exact Nat.lt_of_le_of_lt (Nat.mul_le_mul_left recvcount hi.le) htotal

end AllgatherKind

/-- `EMPI_Allgatherv` or `EMPI_Allgather`, with what is in the buffers of the members, and what
`malloc` yields to them. -/
structure AllgatherCall (α : Type) where
  kind : AllgatherKind α
  sendbuf : Nat → List α
  recvbuf : Nat → Memory α
  fresh : Nat → Memory α

namespace AllgatherCall

variable {α : Type}

/-- What a member runs, where `pmpi` are the calls of the library. -/
def body (clusterCount : Nat) (pmpi : AllgatherCall α → Nat → Caller α (Memory α))
    (call : AllgatherCall α) (r : Nat) (p : Process) (c : Communicator) : Caller α (Memory α) :=
  match call.kind with
  | .allgatherv type recvcounts displs =>
    Empi.allgatherv clusterCount p c type (pmpi call r) (call.sendbuf r) (call.recvbuf r)
      (call.fresh r) recvcounts (displs r)
  | .allgather type recvcount =>
    Empi.allgather clusterCount p c type (pmpi call r) (call.sendbuf r) (call.recvbuf r)
      (call.fresh r) recvcount

/-- The members send as many elements as they are to. -/
def Sends (size : Nat) (call : AllgatherCall α) : Prop :=
  ∀ i < size, (call.sendbuf i).length = call.kind.recvcounts i

/-- **Every rank gets the blocks of all.** -/
def Got (size : Nat) (call : AllgatherCall α) (result : Nat → Memory α) : Prop :=
  ∀ r < size, ∀ i < size,
    (result r).read (call.kind.displs r i) (call.kind.recvcounts i) = call.sendbuf i

/-- All messages of a call. -/
def messages (members : List Pid) (n : Nat) (L : Layout) (call : AllgatherCall α) :
    List (List (Lane × Packet α)) :=
  (L.blocks call.sendbuf
    (fun k j => wideMessage call.kind.type.pk members n opcodeCollectiveBcast bcastTag
      (L.segment call.kind.recvcounts call.sendbuf call.fresh k) (L.coordinator k)
      (L.coordinator j))
    (L.whole call.kind.recvcounts call.sendbuf call.fresh)).map
      (List.map (recodeMessage Link.lane id))

/-- What is in the receive buffers after the call. -/
def result (L : Layout) (call : AllgatherCall α) (r : Nat) : Memory α :=
  L.result call.kind.recvcounts call.sendbuf call.fresh call.recvbuf call.kind.displs r

end AllgatherCall

/-! ### What a member does -/

/-- What a member may do on the lanes of the links. -/
abbrev LinkPolite (members : List Pid) (n r : Nat) {α β : Type} (x : Member α β) : Prop :=
  Keeps (fun c m => Addressed members n r c.lane m) (fun c => Expected r c.lane) x

namespace View

variable {α : Type} {pk : Packing α} {type : Int} {t : ElementType α} {members : List Pid}
  {n r count : Nat} {p : Process} {c : Communicator} {recvcounts : Nat → Nat}

theorem expected_link (h : View members n r p c) (route : Route) (source : Nat) :
    Expected r (Link.lane ⟨route, source, c.globalRank⟩) := by
  refine ⟨(Link.dest_lane _).trans h.globalRank, fun tag htag => ?_⟩
  cases route with
  | gather => cases htag
  | exchange =>
      cases htag
      decide
  | bcast => cases htag

theorem polite_gatherFrom (h : View members n r p c) (sum : Nat) (sendbuf : List α)
    (s : Memory α × Nat) (i : Nat) :
    LinkPolite members n r (gatherFrom p c recvcounts sum sendbuf s i) := by
  have hrest : ∀ xs : List α, LinkPolite (α := α) members n r
      (if s.2 + recvcounts i ≤ sum then .done (s.1.write s.2 xs, s.2 + recvcounts i)
        else .fail) := by
    intro xs
    split
    · exact .done _
    · exact .fail
  have hreceive : LinkPolite (α := α) members n r (gatherReceive c i (recvcounts i)) := by
    refine .recv (h.expected_link .gather i) fun m => ?_
    cases m with
    | elements xs =>
        show Keeps _ _ (if xs.length ≤ recvcounts i then .done xs else .fail)
        split
        · exact .done _
        · exact .fail
    | wideArea m => exact .fail
  unfold gatherFrom
  dsimp only
  split
  · split
    · split
      · exact (Keeps.done _).bind hrest
      · exact Keeps.fail.bind hrest
    · exact hreceive.bind hrest
  · exact .done _

theorem polite_bcastTo (h : View members n r p c) (clusterCount : Nat) (buf : List α) :
    LinkPolite members n r (bcastTo pk clusterCount p c buf) := by
  have hsent : ∀ m ∈ (messagingBcast pk clusterCount p buf c).sent, Addressed members n r
      (Link.lane ⟨.exchange, c.globalRank, m.dest.toNat⟩) (.wideArea m : Packet α) := by
    intro m hm
    obtain ⟨i, hi⟩ := mem_sent_bcastFrom hm
    obtain ⟨dest, _, hsend⟩ := Option.bind_eq_some_iff.mp hi
    cases h.polite_sendWide (β := α) (by decide) hsend with
    | send hmay _ =>
        obtain ⟨hsource, htag, hcomm, hfrom, _, hdst⟩ := hmay
        obtain ⟨_, dstPid, payload, _, rfl⟩ := exists_of_doSend hsend
        exact ⟨hsource, htag, hcomm, hfrom, rfl, hdst⟩
  unfold bcastTo
  generalize messagingBcast pk clusterCount p buf c = b at hsent ⊢
  obtain ⟨reads, sent, success⟩ := b
  dsimp only
  change ∀ m ∈ sent, _ at hsent
  induction sent with
  | nil =>
      cases success
      · exact .fail
      · exact .done ()
  | cons m sent ih =>
      exact .send (hsent m List.mem_cons_self)
        (ih fun m' hm' => hsent m' (List.mem_cons_of_mem m hm'))

theorem polite_bcastReceive (h : View members n r p c) (buf : List α) (root : Nat) :
    LinkPolite members n r (bcastReceive pk type c buf root) := by
  refine .recv (h.expected_link .exchange root) fun m => ?_
  cases m with
  | elements xs => exact .fail
  | wideArea m =>
      show Keeps _ _ (if matchMessage m c.handle root bcastTag then _ else .fail)
      split
      · exact .ofOption _
      · exact .fail

theorem polite_exchangeSegment (h : View members n r p c) (clusterCount : Nat)
    (sums offsets : List Nat) (mem : Memory α) (i : Nat) :
    LinkPolite members n r (exchangeSegment pk type clusterCount p c sums offsets mem i) := by
  refine (Keeps.ofOption _).bind fun coordinator => (Keeps.ofOption _).bind fun offset =>
    (Keeps.ofOption _).bind fun length => ?_
  split
  · exact (h.polite_bcastTo clusterCount _).bind fun _ => .done mem
  · exact (h.polite_bcastReceive _ coordinator).bind fun xs => .done _

theorem polite_bcastLocally (h : View members n r p c) (coordinator sum : Nat) (mem : Memory α) :
    LinkPolite members n r (bcastLocally p c coordinator sum mem) := by
  unfold bcastLocally
  split
  · refine Keeps.foldlM (fun mem i _ => ?_) mem
    split
    · exact .send ⟨(Link.source_lane _).trans h.globalRank, trivial⟩ (.done mem)
    · exact .done mem
  · refine .recv (h.expected_link .bcast coordinator) fun m => ?_
    cases m with
    | elements xs => exact .done _
    | wideArea m => exact .fail

/-- **A member keeps to its lanes** in `EMPI_Allgatherv`. -/
theorem polite_allgatherv (h : View members n r p c) (clusterCount : Nat) (sendbuf : List α)
    (recvbuf fresh : Memory α) (displs : Nat → Nat) :
    Polite members n r ((allgatherv t clusterCount p c recvcounts sendbuf recvbuf fresh
      displs).recode Link.lane id some) := by
  refine Keeps.recode ?_
  have hend : ∀ (coordinator : Nat) (offsets : List Nat) (sum : Nat) (buffer : Memory α),
      LinkPolite members n r (bcastLocally p c coordinator sum buffer >>= fun buffer =>
        Proc.ofOption ((List.range c.globalSize).foldlM
          (copyBlock c recvcounts sum displs buffer) (recvbuf, offsets)) >>= fun received =>
            .done received.1) := fun coordinator offsets sum buffer =>
    (h.polite_bcastLocally coordinator sum buffer).bind fun _ =>
      (Keeps.ofOption _).bind fun _ => .done _
  refine (Keeps.ofOption _).bind fun sums => ?_
  obtain ⟨sums, offsets, sum⟩ := sums
  refine (Keeps.ofOption _).bind fun fresh => (Keeps.ofOption _).bind fun coordinator => ?_
  dsimp only
  split
  · refine Keeps.bind ?_ (hend coordinator offsets sum)
    exact (Keeps.ofOption _).bind fun offset =>
      (Keeps.foldlM (fun s i _ => h.polite_gatherFrom sum sendbuf s i) _).bind fun gathered =>
        Keeps.foldlM (fun mem i _ => h.polite_exchangeSegment clusterCount sums offsets mem i) _
  · refine Keeps.bind (.send ⟨?_, trivial⟩ (.done fresh)) (hend coordinator offsets sum)
    exact (Link.source_lane _).trans h.globalRank

theorem shows (h : View members n r p c) (hspans : SpansInOrder members count) :
    (Layout.ofMembers members count hspans).Shows n r p c := by
  have hshows := Layout.shows_of_mirrors hspans h.mirrors
  rwa [h.globalRank] at hshows

/-- **A message between the coordinators.** -/
theorem message_eq {P : Nat → Process} {C : Nat → Communicator} (hpk : pk.Lawful)
    (hspans : SpansInOrder members count)
    (hviews : ∀ i < members.length, View members n i (P i) (C i)) {segment : Nat → List α}
    {k j : Nat} (hsend : pk.Sendable (segment k).length) (hk : k < count) (hj : j < count) :
    (Layout.ofMembers members count hspans).message pk P C segment k j =
      wideMessage pk members n opcodeCollectiveBcast bcastTag (segment k)
        ((Layout.ofMembers members count hspans).coordinator k)
        ((Layout.ofMembers members count hspans).coordinator j) := by
  let L := Layout.ofMembers members count hspans
  have hview := hviews (L.coordinator k) (L.coordinator_lt k hk)
  rw [Layout.message, bcastSend, (hview.shows hspans).coordinators j hj, Option.bind_some,
    hview.doSend_eq hpk hsend _ _ (L.coordinator_lt j hj), Option.getD_some]

/-- **What a member runs** is `EMPI_Allgatherv`, where the displacements can be computed. -/
theorem body_allgather (h : View members n r p c) (hremote : ¬ OneCluster members)
    {call : AllgatherCall α} (hrange : call.kind.InRange members.length)
    (pmpi : AllgatherCall α → Nat → Caller α (Memory α)) :
    call.body count pmpi r p c =
      (EsalsaMpi.allgatherv call.kind.type count p c call.kind.recvcounts (call.sendbuf r)
        (call.recvbuf r) (call.fresh r) (call.kind.displs r)).recode Link.lane id some := by
  have hlocal := h.not_commIsLocal hremote
  obtain ⟨kind, sendbuf, recvbuf, fresh⟩ := call
  cases kind with
  | allgatherv type recvcounts displs =>
      simp only [AllgatherCall.body, Empi.allgatherv, if_neg hlocal]
      rfl
  | allgather type recvcount =>
      change ∀ i < members.length, recvcount * i < 2 ^ 31 at hrange
      have hdispls : ∀ i : Nat, ((recvcount * i : Int)).toNat = recvcount * i := fun i => by
        rw [← Nat.cast_mul, Int.toNat_natCast]
      simp only [AllgatherCall.body, Empi.allgather, Empi.allgatherv, if_neg hlocal,
        h.mirrors.globalSize, Empi.displacements, if_pos hrange]
      show (EsalsaMpi.allgatherv type count p c _ _ _ _
        fun i => (recvcount * i : Int).toNat).recode Link.lane id some = _
      simp only [hdispls]
      rfl

/-- **The part of a member** in such a call, where the counts fit. -/
theorem follows_allgather {P : Nat → Process} {C : Nat → Communicator}
    (hspans : SpansInOrder members count) (hcount : 1 < count)
    (hviews : ∀ i < members.length, View members n i (P i) (C i)) {call : AllgatherCall α}
    (hlegal : call.kind.Legal members) (hsends : call.Sends members.length)
    (hfits : (Layout.ofMembers members count hspans).CountsFit call.kind.type call.kind.recvcounts)
    (hr : r < members.length) (pmpi : AllgatherCall α → Nat → Caller α (Memory α)) :
    Follows (call.body count pmpi r (P r) (C r))
      (partOf Lane.source Lane.dest r
        (call.messages members n (Layout.ofMembers members count hspans)))
      (call.result (Layout.ofMembers members count hspans) r) := by
  let L := Layout.ofMembers members count hspans
  have hfollows : Follows (EsalsaMpi.allgatherv call.kind.type count (P r) (C r)
      call.kind.recvcounts (call.sendbuf r) (call.recvbuf r) (call.fresh r) (call.kind.displs r))
      (L.trace call.sendbuf (L.message call.kind.type.pk P C
        (L.segment call.kind.recvcounts call.sendbuf call.fresh))
        (L.whole call.kind.recvcounts call.sendbuf call.fresh) r) (call.result L r) :=
    Layout.follows_allgatherv hlegal.1 hfits (fun i hi => (hviews i hi).shows hspans) hsends
      call.recvbuf call.kind.displs hr
  have hsend : ∀ k < count, call.kind.type.pk.Sendable
      (L.segment call.kind.recvcounts call.sendbuf call.fresh k).length := by
    intro k hk
    rw [Layout.length_segment]
    exact hfits.sendable k hk
  have htrace := @Layout.trace_congr α L call.sendbuf _
    (L.whole call.kind.recvcounts call.sendbuf call.fresh) r _
    (fun k hk j hj => message_eq (P := P) (C := C) hlegal.1 hspans hviews (hsend k hk) hk hj) hr
  rw [htrace, ← Layout.partOf_blocks hr] at hfollows
  rw [AllgatherCall.messages, partOf_recode Link.source_lane Link.dest_lane,
    (hviews r hr).body_allgather (not_oneCluster_of_spans hspans hcount)
      (AllgatherKind.inRange_of_total hfits.total)]
  exact hfollows.recode fun m => rfl

theorem polite_allgather (h : View members n r p c) (hremote : ¬ OneCluster members)
    (call : AllgatherCall α) (pmpi : AllgatherCall α → Nat → Caller α (Memory α)) :
    Polite members n r (call.body count pmpi r p c) := by
  have hlocal := h.not_commIsLocal hremote
  obtain ⟨kind, sendbuf, recvbuf, fresh⟩ := call
  cases kind with
  | allgatherv type recvcounts displs =>
      simp only [AllgatherCall.body, Empi.allgatherv, if_neg hlocal]
      exact h.polite_allgatherv _ _ _ _ _
  | allgather type recvcount =>
      simp only [AllgatherCall.body, Empi.allgather, Empi.allgatherv, if_neg hlocal]
      exact (Keeps.ofOption _).bind fun _ => h.polite_allgatherv _ _ _ _ _

/-- **A member does not get through** such a call where it cannot compute its displacements. -/
theorem doomed_allgather (h : View members n r p c) (hremote : ¬ OneCluster members)
    {call : AllgatherCall α} (hrange : ¬ call.kind.InRange members.length)
    (pmpi : AllgatherCall α → Nat → Caller α (Memory α)) :
    Doomed (call.body count pmpi r p c) := by
  have hlocal := h.not_commIsLocal hremote
  obtain ⟨kind, sendbuf, recvbuf, fresh⟩ := call
  cases kind with
  | allgatherv type recvcounts displs => exact absurd trivial hrange
  | allgather type recvcount =>
      change ¬ ∀ i < members.length, recvcount * i < 2 ^ 31 at hrange
      simp only [AllgatherCall.body, Empi.allgather, if_neg hlocal, h.mirrors.globalSize]
      refine Doomed.bind ?_ _
      rw [Empi.displacements, if_neg hrange]
      exact .fail

/-- **Somebody does not get through** where the counts do not fit. -/
theorem exists_doomed_allgather (hspans : SpansInOrder members count) (hcount : 1 < count)
    (call : AllgatherCall α)
    (hfails : ¬ (Layout.ofMembers members count hspans).CountsFit call.kind.type
      call.kind.recvcounts) (pmpi : AllgatherCall α → Nat → Caller α (Memory α)) :
    ∃ r < members.length, ∀ p c, View members n r p c →
      Doomed (call.body count pmpi r p c) := by
  have hremote := not_oneCluster_of_spans hspans hcount
  let L := Layout.ofMembers members count hspans
  have hlt : ∀ k < count, L.coordinator k < members.length := L.coordinator_lt
  have hfirst := hlt 0 (Nat.zero_lt_of_lt hcount)
  by_cases hrange : call.kind.InRange members.length
  · by_cases htotal : L.total call.kind.recvcounts < 2 ^ 31 ∧
        call.kind.type.Holds (L.total call.kind.recvcounts)
    · obtain ⟨k, hk, hsend⟩ : ∃ k < count, ¬ call.kind.type.pk.Sendable
          (L.segmentSize call.kind.recvcounts k) := by
        by_contra hall
        push Not at hall
        exact hfails ⟨htotal.1, htotal.2, hall⟩
      refine ⟨L.coordinator k, hlt k hk, fun p c h => ?_⟩
      rw [← L.cluster_coordinator k hk] at hsend
      rw [h.body_allgather hremote hrange]
      exact (Layout.doomed_of_sendable (h.shows hspans) (Layout.isCoordinator_coordinator hk)
        htotal hcount hsend _ _ _ _).recode
    · refine ⟨L.coordinator 0, hfirst, fun p c h => ?_⟩
      rw [h.body_allgather hremote hrange]
      exact (Layout.doomed_of_total (h.shows hspans) htotal _ _ _ _ _).recode
  · exact ⟨L.coordinator 0, hfirst, fun p c h => h.doomed_allgather hremote hrange pmpi⟩

end View

namespace System

variable {α : Type} {cfg : Server.Config} {order : Server.HashOrder} {s : System} {n : Nat}
  {sc : Server.Communicator}

/-- What the members know of a communicator. -/
theorem exists_views (hreach : System.Reachable cfg order s)
    (hsc : s.server[n]? = some (some sc))
    (hrunning : ∀ pid ∈ sc.tables.members, (s.processes pid).isSome) :
    ∃ (P : Nat → Process) (C : Nat → Communicator),
      ∀ i < sc.tables.members.length, View sc.tables.members n i (P i) (C i) := by
  have hview : ∀ i, ∃ (p : Process) (c : Communicator), i < sc.tables.members.length →
      View sc.tables.members n i p c := by
    intro i
    by_cases hi : i < sc.tables.members.length
    · obtain ⟨p, c, hview, _⟩ := exists_view (α := Unit) (β := Unit) hreach hsc hrunning hi
      exact ⟨p, c, fun _ => hview⟩
    · exact ⟨⟨0, fun _ => none⟩, nullCommunicator, fun hlt => absurd hlt hi⟩
  choose P C hviews using hview
  exact ⟨P, C, hviews⟩

/-- A call over the wide area is performed, with what the layout makes of the buffers. -/
theorem performed_allgather (hreach : System.Reachable cfg order s)
    (hsc : s.server[n]? = some (some sc))
    (hrunning : ∀ pid ∈ sc.tables.members, (s.processes pid).isSome)
    (hspans : SpansInOrder sc.tables.members cfg.numberOfClusters)
    (pmpi : AllgatherCall α → Nat → Caller α (Memory α)) {call : AllgatherCall α}
    (hlegal : call.kind.Legal sc.tables.members) (hsends : call.Sends sc.tables.members.length)
    (hfits : (Layout.ofMembers sc.tables.members cfg.numberOfClusters hspans).CountsFit
      call.kind.type call.kind.recvcounts) :
    Session.Performed sc.tables.members n (fun _ => True)
      (s.caller n sc.tables.members (call.body cfg.numberOfClusters pmpi))
      (call.result (Layout.ofMembers sc.tables.members cfg.numberOfClusters hspans)) := by
  obtain ⟨P, C, hviews⟩ := exists_views hreach hsc hrunning
  refine performed hreach hsc hrunning (call.messages sc.tables.members n
    (Layout.ofMembers sc.tables.members cfg.numberOfClusters hspans)) ?_ ?_ ?_ fun _ _ => trivial
  · intro r p c hview
    exact hview.polite_allgather (not_oneCluster_of_spans hspans cfg.one_lt_clusters) call pmpi
  · intro r p c hview
    have hall : ∀ i < sc.tables.members.length, View sc.tables.members n i
        (Function.update P r p i) (Function.update C r c i) := by
      intro i hi
      by_cases hir : i = r
      · subst hir
        rw [Function.update_self, Function.update_self]
        exact hview
      · rw [Function.update_of_ne hir, Function.update_of_ne hir]
        exact hviews i hi
    have hfollows := View.follows_allgather hspans cfg.one_lt_clusters hall hlegal hsends hfits
      hview.rank_lt pmpi
    rwa [Function.update_self, Function.update_self] at hfollows
  · intro b hb t ht
    obtain ⟨links, hlinks, rfl⟩ := List.mem_map.mp hb
    obtain ⟨link, hlink, rfl⟩ := List.mem_map.mp ht
    rw [recodeMessage, Link.source_lane, Link.dest_lane]
    exact Layout.inside_blocks links hlinks link hlink

/-- Every rank gets the blocks of all, where only empty blocks are filed under another cluster. -/
theorem got_allgather {members : List Pid} {count : Nat} (hspans : SpansInOrder members count)
    {call : AllgatherCall α} (hlegal : call.kind.Legal members)
    (hsends : call.Sends members.length) (hordered : Ordered members call.kind.recvcounts) :
    call.Got members.length (call.result (Layout.ofMembers members count hspans)) := by
  intro r hr i hi
  have hdisjoint : (Layout.ofMembers members count hspans).Disjoint call.kind.recvcounts
      (call.kind.displs r) := hlegal.2 r hr
  rw [AllgatherCall.result, Layout.read_result call.recvbuf hdisjoint hi]
  exact Layout.read_block (L := Layout.ofMembers members count hspans) hsends
    ((ordered_iff hspans).mp hordered) (Layout.read_finalBuffer r) hi

/-- Where every rank gets the blocks of all whatever they are, only empty blocks are filed under
another cluster. -/
theorem ordered_of_got [Nontrivial α] {members : List Pid} {count : Nat}
    (hspans : SpansInOrder members count) {kind : AllgatherKind α} (hlegal : kind.Legal members)
    (hgot : ∀ call : AllgatherCall α, call.kind = kind → call.Sends members.length →
      call.Got members.length (call.result (Layout.ofMembers members count hspans))) :
    Ordered members kind.recvcounts := by
  rw [ordered_iff hspans]
  intro i hi hindex
  by_contra hcount
  obtain ⟨x, y, hxy⟩ := exists_pair_ne α
  -- member `i` sends `x` only, the others send `y`, and fresh memory holds `y`
  let call : AllgatherCall α :=
    { kind := kind
      sendbuf := fun j => List.replicate (kind.recvcounts j) (if j = i then x else y)
      recvbuf := fun _ _ => y
      fresh := fun _ _ => y }
  have hblock := hgot call rfl (fun j _ => List.length_replicate) i hi i hi
  have hdisjoint : (Layout.ofMembers members count hspans).Disjoint kind.recvcounts
      (kind.displs i) := hlegal.2 i hi
  rw [AllgatherCall.result, Layout.read_result call.recvbuf hdisjoint hi] at hblock
  have hx : x ∈ call.sendbuf i := by simp [call, hcount]
  rw [← hblock] at hx
  rcases Layout.mem_read_block (Layout.read_finalBuffer i) hi hindex hx with
    ⟨j, hj, hmem⟩ | ⟨r, t, heq⟩
  · have hy := List.eq_of_mem_replicate hmem
    rw [if_neg hj] at hy
    exact hxy hy
  · exact hxy heq

/-- **Gathering to all.**  On a communicator of a run that spans all clusters in order, all rows
of calls of some kinds come to their end, and every rank gets the blocks of all, if and only if
for each kind no member that sends anything comes behind a member of a later cluster, and the
counts fit. -/
theorem allgathers_deliver_iff [Nontrivial α] (hreach : System.Reachable cfg order s)
    (hsc : s.server[n]? = some (some sc))
    (hrunning : ∀ pid ∈ sc.tables.members, (s.processes pid).isSome)
    (hspans : SpansInOrder sc.tables.members cfg.numberOfClusters)
    (pmpi : AllgatherCall α → Nat → Caller α (Memory α)) (kinds : Set (AllgatherKind α))
    (hlegal : ∀ kind ∈ kinds, kind.Legal sc.tables.members) :
    (∀ calls : List (AllgatherCall α),
        (∀ call ∈ calls, call.kind ∈ kinds ∧ call.Sends sc.tables.members.length) →
        ∃ result : AllgatherCall α → Nat → Memory α,
          (∀ call ∈ calls, call.Got sc.tables.members.length (result call)) ∧
            Session.Delivers sc.tables.members n Session.Eager
              (s.session n sc.tables.members
                (calls.map (AllgatherCall.body cfg.numberOfClusters pmpi)))
              fun r => calls.map fun call => result call r) ↔
      ∀ kind ∈ kinds, kind.Fits cfg.numberOfClusters sc.tables.members := by
  have hremote := not_oneCluster_of_spans hspans cfg.one_lt_clusters
  constructor
  · intro hall kind hkind
    have hone : ∀ call : AllgatherCall α, call.kind = kind →
        call.Sends sc.tables.members.length → ∃ result : Nat → Memory α,
          call.Got sc.tables.members.length result ∧
            Session.Delivers sc.tables.members n Session.Eager
              (s.session n sc.tables.members
                ([call].map (AllgatherCall.body cfg.numberOfClusters pmpi)))
              fun r => [result r] := by
      intro call hcall hsends
      obtain ⟨result, hgot, hdelivers⟩ := hall [call] fun call' hcall' => by
        rw [List.mem_singleton.mp hcall', hcall]
        exact ⟨hkind, hsends⟩
      exact ⟨result call, hgot call (List.mem_singleton_self call), hdelivers⟩
    have hcounts : (Layout.ofMembers sc.tables.members cfg.numberOfClusters hspans).CountsFit
        kind.type kind.recvcounts := by
      by_contra hfails
      obtain ⟨x, _⟩ := exists_pair_ne α
      let call : AllgatherCall α :=
        ⟨kind, fun i => List.replicate (kind.recvcounts i) x, fun _ _ => x, fun _ _ => x⟩
      obtain ⟨result, _, hdelivers⟩ := hone call rfl fun i _ => List.length_replicate
      obtain ⟨r, hr, hdoomed⟩ := View.exists_doomed_allgather (n := n) hspans
        cfg.one_lt_clusters call hfails pmpi
      refine not_delivers hreach hsc hrunning ?_ (List.mem_singleton_self _) hr hdoomed _ _
        hdelivers
      intro call' _ r p c hview
      exact hview.polite_allgather hremote call' pmpi
    suffices hordered : Ordered sc.tables.members kind.recvcounts from
      ⟨hordered, (countsFit_iff hspans hordered).mpr hcounts⟩
    refine ordered_of_got hspans (hlegal kind hkind) fun call hcall hsends => ?_
    obtain ⟨result, hgot, hdelivers⟩ := hone call hcall hsends
    have hlegal' : call.kind.Legal sc.tables.members := hcall ▸ hlegal kind hkind
    have hdone : Session.Delivers sc.tables.members n Session.Eager
        (s.session n sc.tables.members
          ([call].map (AllgatherCall.body cfg.numberOfClusters pmpi)))
        fun r => [call].map fun call => call.result
          (Layout.ofMembers sc.tables.members cfg.numberOfClusters hspans) r := by
      refine delivers_of_performed hreach hsc hrunning fun call' hcall' => ?_
      rw [List.mem_singleton.mp hcall']
      exact performed_allgather hreach hsc hrunning hspans pmpi hlegal' hsends (hcall ▸ hcounts)
    intro r hr i hi
    have hsame := List.head_eq_of_cons_eq (hdone.unique hdelivers hr rfl)
    have hblock := hgot r hr i hi
    rw [← hsame] at hblock
    exact hblock
  · intro hfits calls hcalls
    refine ⟨fun call => call.result (Layout.ofMembers sc.tables.members cfg.numberOfClusters
      hspans), fun call hcall => ?_, ?_⟩
    · obtain ⟨hkind, hsends⟩ := hcalls call hcall
      exact got_allgather hspans (hlegal _ hkind) hsends (hfits _ hkind).1
    · refine delivers_of_performed hreach hsc hrunning fun call hcall => ?_
      obtain ⟨hkind, hsends⟩ := hcalls call hcall
      obtain ⟨hordered, hcounts⟩ := hfits _ hkind
      exact performed_allgather hreach hsc hrunning hspans pmpi (hlegal _ hkind) hsends
        ((countsFit_iff hspans hordered).mp hcounts)

/-! ### Two calls -/

/-- A byte from each member. -/
def gatherBytes : AllgatherCall UInt8 :=
  ⟨.allgather byteType 1, fun r => [UInt8.ofNat r], fun _ _ => 0, fun _ _ => 0⟩

theorem spans_triple : SpansInOrder (Server.worldMembers .triple) 2 :=
  show (Server.tablesSpec (Server.worldMembers .triple)).clusterRanks = List.range 2 by decide

theorem legal_gatherBytes (members : List Pid) : gatherBytes.kind.Legal members :=
  ⟨bytePacking_lawful, fun _ _ => AllgatherKind.blocksDisjoint_scaled members 1⟩

/-- Three processes stand in the order of their clusters. -/
theorem fits_gatherBytes : gatherBytes.kind.Fits 2 (Server.worldMembers .triple) := by
  refine ⟨?_, ⟨by decide, by decide, by decide⟩⟩
  have hlast : ∀ i j : Fin 3, j < i → getClusterRank ((Server.worldMembers .triple).getD j 0) ≤
      getClusterRank ((Server.worldMembers .triple).getD i 0) := by
    decide
  intro i j pid pid' hpid hpid' hji _
  have hi : i < 3 := (List.getElem?_eq_some_iff.mp hpid).1
  have hle := hlast ⟨i, hi⟩ ⟨j, Nat.lt_trans hji hi⟩ hji
  rwa [List.getD_eq_getElem?_getD, List.getD_eq_getElem?_getD, hpid, hpid'] at hle

/-- Three processes in two clusters do this twice. -/
theorem allgathers_deliver_triple :
    ∃ result : AllgatherCall UInt8 → Nat → Memory UInt8,
      (∀ call ∈ [gatherBytes, gatherBytes],
        call.Got (Server.worldMembers .triple).length (result call)) ∧
        Session.Delivers (Server.worldMembers .triple) 0 Session.Eager
          ((start .triple tripleServer).session 0 (Server.worldMembers .triple)
            ([gatherBytes, gatherBytes].map (AllgatherCall.body 2 fun _ _ => .fail)))
          fun r => [gatherBytes, gatherBytes].map fun call => result call r := by
  have hworld : (start .triple tripleServer).server[0]? = some (some
      (Server.Communicator.fresh 0 (Server.tablesSpec (Server.worldMembers .triple)))) := rfl
  refine (allgathers_deliver_iff reachable_triple hworld running_triple spans_triple _
    {gatherBytes.kind} ?_).mpr ?_ _ ?_
  · rintro kind rfl
    exact legal_gatherBytes _
  · rintro kind rfl
    exact fits_gatherBytes
  · intro call hcall
    have hone : call = gatherBytes := by simpa using hcall
    rw [hone]
    exact ⟨rfl, fun _ _ => rfl⟩

end System

end EsalsaMpi
