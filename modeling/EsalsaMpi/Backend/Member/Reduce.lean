import EsalsaMpi.Backend.Member.Bcast
import EsalsaMpi.Library.Reductions

/-!
# Reductions to a root

In `EMPI_Reduce` the library of the root's cluster reduces to the root, and in every
other cluster to the coordinator, which sends the result to the root.  The root
combines what it receives in the order of the clusters.  With an operation that is
associative and commutative this is the reduction of all send buffers, wherever the
members are, if and only if there is one cluster only, or nothing stops the call and the root
makes of the results what the library would make of them (`System.reduces_deliver_iff`).
-/

namespace EsalsaMpi

open ProcessNetwork Reductions

namespace Empi

variable {α : Type} (p : Process) (c : Communicator) (lib : Library α) (op : Operation α)
  (t : ElementType α)

/-- The round for cluster `i` of the loop in `EMPI_Reduce`, with what is in `buffer` and
in `recvbuf`. -/
def reduceFrom (s : List α × List α) (i : Nat) : Caller α (List α × List α) := do
  let coordinator ← .ofOption c.tables.coordinators[i]?
  if c.globalRank ≠ coordinator ∧ rankIsLocal p c coordinator = false then do
    let buffer ← receiveMessage t.pk t.handle c s.1 coordinator reduceTag
    let recvbuf ← .ofOption (op.function t.handle buffer s.2)
    .done (buffer, recvbuf)
  else
    .done s

/-- The reduction in the cluster to the process with rank `localRoot`, which has the library's
rank `rank`: what is in `buffer` then, for which `malloc` has yielded `fresh`. -/
def reduceLocally (localRoot rank : Nat) (sendbuf fresh : List α) : Caller α (List α) := do
  let buffer ← pmpiReduce c lib op t.handle rank sendbuf fresh
  if c.globalRank = localRoot then .ofOption (t.raw buffer) else .done buffer

/-- `EMPI_Reduce`: what is in `recvbuf` then.  `fresh` is what `malloc` yields. -/
def reduce (sendbuf recvbuf fresh : List α) (root : Nat) : Caller α (List α) :=
  if c.commIsLocal then
    pmpiReduce c lib op t.handle root sendbuf recvbuf
  else do
    let localRoot ← .ofOption (if rankIsLocal p c root then some root else c.myCoordinator)
    let rank ← .ofOption (c.getLocalRank localRoot)
    let buffer ← reduceLocally c lib op t localRoot rank sendbuf fresh
    if c.globalRank = root then do
      let s ← (List.range c.clusterCount).foldlM (reduceFrom p c op t) (buffer, buffer)
      .done s.2
    else if rankIsLocal p c root = false ∧ c.myCoordinator = some c.globalRank then do
      sendMessage t.pk p c buffer root reduceTag
      .done recvbuf
    else
      .done recvbuf

end Empi

/-- The library reduces buffers with `count` elements as MPI says. -/
def Library.Reduces {α : Type} (lib : Library α) (op : Operation α) (type : Int) (count : Nat) :
    Prop :=
  ∀ bufs x, (∀ buf ∈ bufs, buf.length = count) →
    reduction (op.combine type) bufs = some x → lib.reduce op type bufs = x

/-- Nothing stops a reduction of `count` elements over the wide area: the function of the
operation can be called for the datatype, the elements fit into a message, and memory of the
size of their extents holds them. -/
structure Operation.Supports {α : Type} (op : Operation α) (t : ElementType α) (count : Nat) :
    Prop where
  covers : op.covers t.handle = true
  sendable : t.pk.Sendable count
  holds : t.Holds count

section Partial

variable {α : Type} (members : List Pid) (lib : Library α) (op : Operation α) (type : Int)
  (data : Nat → List α)

/-- What the library makes of the send buffers in the cluster of rank `r`. -/
def partialResult (r : Nat) : List α := lib.reduce op type ((localsOf members r).map data)

/-- What is made of the results of the clusters at `root`, with a way to combine two. -/
def totalResult (merge : List α → List α → List α) (root : Nat) : List α :=
  ((clustersIn members).filter (· ≠ clusterAt members root)).foldl
    (fun acc k => merge (partialResult members lib op type data (coordinatorOf members k)) acc)
    (partialResult members lib op type data root)

variable {members lib op type data} {count r root : Nat}

theorem reduction_locals (hr : r < members.length)
    (hlength : ∀ i < members.length, (data i).length = count)
    (hlib : lib.Reduces op type count) :
    reduction (op.combine type) ((localsOf members r).map data) =
      some (partialResult members lib op type data r) := by
  have hmem : r ∈ localsOf members r := mem_localsOf.mpr ⟨hr, rfl⟩
  obtain ⟨x, hx⟩ := exists_reduction (f := op.combine type)
    (List.ne_nil_of_mem (List.mem_map_of_mem (f := data) hmem))
  have hlocal : partialResult members lib op type data r = x := by
    refine hlib _ x ?_ hx
    intro buf hbuf
    obtain ⟨i, hi, rfl⟩ := List.mem_map.mp hbuf
    exact hlength i (mem_localsOf.mp hi).1
  rw [hlocal, hx]

theorem length_partialResult (hr : r < members.length)
    (hlength : ∀ i < members.length, (data i).length = count)
    (hop : op.Associates type count) (hlib : lib.Reduces op type count) :
    (partialResult members lib op type data r).length = count := by
  refine reduction_mem (S := {buf : List α | buf.length = count}) hop ?_
    (reduction_locals hr hlength hlib)
  intro buf hbuf
  obtain ⟨i, hi, rfl⟩ := List.mem_map.mp hbuf
  exact hlength i (mem_localsOf.mp hi).1

/-- The functions of operations keep the number of elements. -/
theorem length_totalResult (hroot : root < members.length)
    (hlength : ∀ i < members.length, (data i).length = count)
    (hop : op.Associates type count) (hlib : lib.Reduces op type count) :
    (totalResult members lib op type data (op.merge type) root).length = count := by
  have hown := length_partialResult hroot hlength hop hlib
  unfold totalResult
  generalize partialResult members lib op type data root = acc at hown
  induction (clustersIn members).filter (· ≠ clusterAt members root) generalizing acc with
  | nil => exact hown
  | cons k clusters ih => exact ih _ ((op.length_merge _ _ _).trans hown)

theorem localsOf_coordinatorOf {k : Nat} (hk : k ∈ clustersIn members) :
    localsOf members (coordinatorOf members k) =
      (List.range members.length).filter fun i => clusterAt members i = k := by
  rw [localsOf, (coordinatorOf_spec hk).2]

/-- The ranks, cluster by cluster. -/
theorem perm_clusters (members : List Pid) :
    ((clustersIn members).flatMap fun k => (List.range members.length).filter fun i =>
      clusterAt members i = k).Perm (List.range members.length) :=
  perm_flatMap_filter List.nodup_range (nodup_clustersIn members) fun _ hi =>
    clusterAt_mem_clustersIn (List.mem_range.mp hi)

/-- Where the members are in one cluster, there is no other one. -/
theorem others_of_oneCluster {members : List Pid} {root : Nat} (hone : OneCluster members)
    (hroot : root < members.length) :
    (clustersIn members).filter (· ≠ clusterAt members root) = [] := by
  apply List.filter_eq_nil_iff.mpr
  intro k hk hne
  obtain ⟨hlt, hcluster⟩ := coordinatorOf_spec hk
  rw [clusterAt_of_getElem? (List.getElem?_eq_getElem hlt)] at hcluster
  rw [decide_eq_true_eq, clusterAt_of_getElem? (List.getElem?_eq_getElem hroot)] at hne
  exact hne (hcluster.symm.trans (hone.2 _ (List.getElem_mem hlt) _ (List.getElem_mem hroot)))

/-- Where the members are in one cluster, the root has nothing to combine. -/
theorem totalResult_of_oneCluster (hone : OneCluster members)
    (hroot : root < members.length) (merge merge' : List α → List α → List α) :
    totalResult members lib op type data merge root =
      totalResult members lib op type data merge' root := by
  rw [totalResult, totalResult, others_of_oneCluster hone hroot]
  rfl

/-- **The total does not depend on the placement.**  It is the reduction of all send
buffers in rank order. -/
theorem totalResult_eq (hroot : root < members.length)
    (hlength : ∀ i < members.length, (data i).length = count)
    (hop : op.Associates type count) (hcomm : op.Commutes type count)
    (hlib : lib.Reduces op type count) :
    totalResult members lib op type data (op.combine type) root =
      upTo (op.combine type) data (members.length - 1) := by
  let own := clusterAt members root
  let others := (clustersIn members).filter (· ≠ own)
  let part := partialResult members lib op type data
  -- the clusters in the order in which their results are combined
  have horder : (others.reverse ++ [own]).Perm (clustersIn members) := by
    have hsplit := List.filter_append_perm (fun k => decide (k ≠ own)) (clustersIn members)
    have hown : (clustersIn members).filter (fun k => !decide (k ≠ own)) = [own] := by
      have hcongr : (clustersIn members).filter (fun k => !decide (k ≠ own)) =
          (clustersIn members).filter (· = own) := by
        apply List.filter_congr
        intro k _
        simp
      rw [hcongr, List.filter_eq, List.count_eq_one_of_mem (nodup_clustersIn members)
        (clusterAt_mem_clustersIn hroot)]
      rfl
    rw [hown] at hsplit
    exact ((List.reverse_perm others).append_right [own]).trans hsplit
  have hcoordinator : ∀ k ∈ others.reverse ++ [own], coordinatorOf members k < members.length :=
    fun k hk => (coordinatorOf_spec (horder.mem_iff.mp hk)).1
  have hpart : part root = part (coordinatorOf members own) := by
    show lib.reduce op type _ = lib.reduce op type _
    rw [localsOf_coordinatorOf (clusterAt_mem_clustersIn hroot)]
    rfl
  have htotal : some (totalResult members lib op type data (op.combine type) root) =
      reduction (op.combine type) ((others.reverse ++ [own]).map fun k =>
        part (coordinatorOf members k)) := by
    rw [List.map_append, List.map_singleton, List.map_reverse, reduction_accumulated,
      List.foldl_map, ← hpart]
    rfl
  have hparts : reduction (op.combine type) ((others.reverse ++ [own]).map fun k =>
      part (coordinatorOf members k)) =
        reduction (op.combine type) ((others.reverse ++ [own]).flatMap fun k =>
          (localsOf members (coordinatorOf members k)).map data) := by
    refine (reduction_flatMap hop ?_ ?_).symm
    · intro k _ buf hbuf
      obtain ⟨i, hi, rfl⟩ := List.mem_map.mp hbuf
      exact hlength i (mem_localsOf.mp hi).1
    · intro k hk
      exact reduction_locals (hcoordinator k hk) hlength hlib
  have hranks : ((others.reverse ++ [own]).flatMap fun k =>
      (localsOf members (coordinatorOf members k)).map data).Perm
        ((List.range members.length).map data) := by
    have hlocals : (others.reverse ++ [own]).flatMap (fun k =>
        (localsOf members (coordinatorOf members k)).map data) =
          ((others.reverse ++ [own]).flatMap fun k => (List.range members.length).filter fun i =>
            clusterAt members i = k).map data := by
      rw [List.map_flatMap]
      apply List.flatMap_congr
      intro k hk
      rw [localsOf_coordinatorOf (horder.mem_iff.mp hk)]
    rw [hlocals]
    exact ((horder.flatMap_right _).trans (perm_clusters members)).map data
  have hall : reduction (op.combine type) ((List.range members.length).map data) =
      some (upTo (op.combine type) data (members.length - 1)) := by
    have hsize : members.length = members.length - 1 + 1 := by omega
    conv_lhs => rw [hsize]
    exact reduction_range data _
  apply Option.some.inj
  rw [htotal, hparts, ← hall]
  refine reduction_perm hop hcomm hranks ?_
  intro buf hbuf
  obtain ⟨k, _, hbuf⟩ := List.mem_flatMap.mp hbuf
  obtain ⟨i, hi, rfl⟩ := List.mem_map.mp hbuf
  exact hlength i (mem_localsOf.mp hi).1

end Partial

/-! ### What a member does -/

namespace View

variable {α : Type} {t : ElementType α} {members : List Pid} {n r root count : Nat}
  {p : Process} {c : Communicator} {lib : Library α} {op : Operation α} {data : Nat → List α}

/-- Where all members are in one cluster, each has all ranks in its own. -/
theorem localsOf_eq_range (hone : OneCluster members) (hr : r < members.length) :
    localsOf members r = List.range members.length := by
  apply List.filter_eq_self.mpr
  intro i hi
  have hlt := List.mem_range.mp hi
  rw [clusterAt_of_getElem? (List.getElem?_eq_getElem hlt),
    clusterAt_of_getElem? (List.getElem?_eq_getElem hr)]
  exact decide_eq_true (hone.2 _ (List.getElem_mem hlt) _ (List.getElem_mem hr))

/-- The root has its rank in the library too. -/
theorem peers_root (h : View members n r p c) (hone : OneCluster members)
    (hroot : root < members.length) : c.peers[root]? = some root := by
  rw [h.peers_eq, localsOf_eq_range hone h.rank_lt, List.getElem?_range hroot]

/-- The coordinator of the cluster with index `i`. -/
theorem getElem?_coordinators_clustersIn (h : View members n r p c) {i k : Nat}
    (hk : (clustersIn members)[i]? = some k) :
    c.tables.coordinators[i]? = some (coordinatorOf members k) := by
  have hranks : (Server.tablesSpec members).clusterRanks[i]? = some k := hk
  rw [h.mirrors.tables, EsalsaMpi.getElem?_coordinators, hranks]
  rfl

theorem clusterCount_eq (h : View members n r p c) :
    c.clusterCount = (clustersIn members).length := by
  rw [h.mirrors.clusterCount, h.mirrors.tables]
  simp [Server.tablesSpec, clustersIn]

/-- **A loop over the clusters** that receives from the coordinators of the others and
combines. -/
theorem follows_combine (h : View members n r p c) (hpk : t.pk.Lawful)
    (hop : op.Supports t count) {part : Nat → List α}
    (hpart : ∀ i < members.length, (part i).length = count) {own opcode : Nat} {tag : Int}
    {f : List α × List α → Nat → Caller α (List α × List α)}
    (hf : ∀ s i k, (clustersIn members)[i]? = some k → f s i =
      if k ≠ own then
        receiveMessage t.pk t.handle c s.1 (coordinatorOf members k) tag >>= fun buffer =>
          .ofOption (op.function t.handle buffer s.2) >>= fun recvbuf => .done (buffer, recvbuf)
      else
        .done s) {s : List α × List α} (hs : s.1.length = count) :
    Follows ((List.range c.clusterCount).foldlM f s)
      ((clustersIn members).flatMap fun k =>
        if k ≠ own then
          [.recv ⟨.wideArea tag, coordinatorOf members k, r⟩ (.wideArea (wideMessage t.pk members n
            opcode tag (part (coordinatorOf members k)) (coordinatorOf members k) r))]
        else
          [])
      ((clustersIn members).foldl
        (fun s k => if k ≠ own then
          (part (coordinatorOf members k), op.merge t.handle (part (coordinatorOf members k)) s.2)
        else s) s) := by
  rw [h.clusterCount_eq]
  refine Follows.foldlM_index (P := fun s : List α × List α => s.1.length = count) ?_ hs
  intro s i k hs hk
  obtain ⟨hlt, _⟩ := coordinatorOf_spec (List.mem_of_getElem? hk)
  have hsend : t.pk.Sendable (part (coordinatorOf members k)).length := by
    rw [hpart _ hlt]
    exact hop.sendable
  rw [hf s i k hk]
  by_cases hown : k = own
  · rw [if_neg (not_not_intro hown), if_neg (not_not_intro hown), if_neg (not_not_intro hown)]
    exact ⟨.done s, hs⟩
  · rw [if_pos hown, if_pos hown, if_pos hown]
    refine ⟨?_, hpart _ hlt⟩
    refine (h.follows_receiveMessage hpk opcode hsend (hs.trans (hpart _ hlt).symm) tag _).bind ?_
    rw [op.function_of_covers hop.covers]
    exact .done _

/-- **The loop of the root** takes in the results of the other clusters. -/
theorem follows_reduceFrom (h : View members n root p c) (hpk : t.pk.Lawful)
    (hop : op.Supports t count) {part : Nat → List α}
    (hpart : ∀ i < members.length, (part i).length = count) {buffer : List α}
    (hbuffer : buffer.length = count) :
    Follows ((List.range c.clusterCount).foldlM (Empi.reduceFrom p c op t) (buffer, buffer))
      (receivesOf Lane.dest root (fanIn t.pk members n opcodeData reduceTag part root))
      ((clustersIn members).foldl
        (fun s k => if k ≠ clusterAt members root then
          (part (coordinatorOf members k), op.merge t.handle (part (coordinatorOf members k)) s.2)
        else s) (buffer, buffer)) := by
  rw [receivesOf_fanIn, if_pos rfl]
  refine h.follows_combine hpk hop hpart (fun s i k hk => ?_) hbuffer
  obtain ⟨hlt, hcluster⟩ := coordinatorOf_spec (List.mem_of_getElem? hk)
  rw [Empi.reduceFrom, h.getElem?_coordinators_clustersIn hk, h.globalRank]
  show (if root ≠ coordinatorOf members k ∧ rankIsLocal p c (coordinatorOf members k) = false
    then _ else _) = _
  rw [h.rankIsLocal_eq hlt, hcluster]
  by_cases hown : k = clusterAt members root
  · rw [if_neg fun h => by simp [hown] at h, if_neg (not_not_intro hown)]
  · have hne : root ≠ coordinatorOf members k := by
      rintro heq
      rw [heq, hcluster] at hown
      exact hown rfl
    rw [if_pos ⟨hne, by simpa using hown⟩, if_pos hown]

/-- What the loop makes of the results. -/
theorem foldl_reduceFrom (merge : List α → List α → List α) (part : Nat → List α) (own : Nat)
    (clusters : List Nat) (s : List α × List α) :
    (clusters.foldl (fun s k => if k ≠ own then
        (part (coordinatorOf members k), merge (part (coordinatorOf members k)) s.2)
      else s) s).2 =
      (clusters.filter (· ≠ own)).foldl
        (fun acc k => merge (part (coordinatorOf members k)) acc) s.2 := by
  induction clusters generalizing s with
  | nil => rfl
  | cons k clusters ih =>
      rw [List.foldl_cons, ih]
      by_cases hk : k = own <;> simp [hk]

/-- Who the library reduces to. -/
theorem localRoot_eq (h : View members n r p c) (hroot : root < members.length) :
    (if rankIsLocal p c root = true then some root else c.myCoordinator) =
      some (rootFor members root r) := by
  rw [h.rankIsLocal_eq hroot, h.myCoordinator, rootFor]
  by_cases hcluster : clusterAt members root = clusterAt members r
  · rw [if_pos (decide_eq_true hcluster), if_pos hcluster.symm]
  · rw [if_neg (by simpa using hcluster), if_neg (Ne.symm hcluster)]

/-- **The reduction in the own cluster.** -/
theorem follows_reduceLocally (h : View members n r p c) {localRoot : Nat → Nat}
    (hroot : LocalRoot members localRoot) {k : Nat} (hk : c.peers[k]? = some (localRoot r))
    (hlength : ∀ i < members.length, (data i).length = count)
    (hop : op.Associates t.handle count) (hlib : lib.Reduces op t.handle count)
    (hholds : t.Holds count) (fresh : List α) :
    Follows (Empi.reduceLocally c lib op t (localRoot r) k (data r) fresh)
      (partOf Lane.source Lane.dest r [reduceBlock members localRoot data])
      (if localRoot r = r then partialResult members lib op t.handle data r else fresh) := by
  have hlocals : ∀ i ∈ localsOf members r, (data i).length = (data r).length := fun i hi =>
    (hlength i (mem_localsOf.mp hi).1).trans (hlength r h.rank_lt).symm
  have hreduce := h.follows_pmpiReduce lib op t.handle hroot hk fresh hlocals
  rw [Empi.reduceLocally, h.globalRank,
    ← List.append_nil (partOf _ _ r [reduceBlock members localRoot data])]
  refine hreduce.bind ?_
  by_cases hself : localRoot r = r
  · have hraw : t.raw (partialResult members lib op t.handle data r) =
        some (partialResult members lib op t.handle data r) := by
      apply if_pos
      rwa [length_partialResult h.rank_lt hlength hop hlib]
    rw [if_pos hself, if_pos hself.symm, if_pos hself]
    show Follows (Proc.ofOption (t.raw (partialResult members lib op t.handle data r))) [] _
    rw [hraw]
    exact .done _
  · rw [if_neg hself, if_neg (Ne.symm hself), if_neg hself]
    exact .done _

/-- The call where the members are in several clusters. -/
theorem reduce_eq (h : View members n r p c) (hremote : ¬ OneCluster members)
    (hroot : root < members.length) (lib : Library α) (op : Operation α) (sendbuf recvbuf fresh : List α) :
    ∃ k, c.peers[k]? = some (rootFor members root r) ∧
      Empi.reduce p c lib op t sendbuf recvbuf fresh root =
        Empi.reduceLocally c lib op t (rootFor members root r) k sendbuf fresh >>= fun buffer =>
          if r = root then
            (List.range c.clusterCount).foldlM (Empi.reduceFrom p c op t) (buffer, buffer) >>=
              fun s => .done s.2
          else if clusterAt members r ≠ clusterAt members root ∧ coordinatorFor members r = r then
            sendMessage t.pk p c buffer root reduceTag >>= fun _ => .done recvbuf
          else
            .done recvbuf := by
  obtain ⟨k, hrank, hk⟩ := h.exists_localRank (localRoot_rootFor hroot r h.rank_lt).1
  have hcoordinates : (rankIsLocal p c root = false ∧ c.myCoordinator = some r) ↔
      clusterAt members r ≠ clusterAt members root ∧ coordinatorFor members r = r := by
    rw [h.rankIsLocal_eq hroot, h.myCoordinator, Option.some_inj, decide_eq_false_iff_not, ne_comm]
  refine ⟨k, hk, ?_⟩
  rw [Empi.reduce, if_neg fun hlocal => hremote (h.commIsLocal.mp hlocal), h.localRoot_eq hroot]
  simp only [Proc.ofOption_some_bind, hrank, h.globalRank, hcoordinates]

/-- **The part of a member in a reduction.** -/
theorem follows_reduce (h : View members n r p c) (hpk : t.pk.Lawful)
    (hroot : root < members.length) (hlength : ∀ i < members.length, (data i).length = count)
    (hop : op.Associates t.handle count) (hlib : lib.Reduces op t.handle count)
    (hfits : OneCluster members ∨ op.Supports t count) (recvbuf fresh : List α) :
    Follows (Empi.reduce p c lib op t (data r) recvbuf fresh root)
      (partOf Lane.source Lane.dest r [reduceBlock members (rootFor members root) data,
        fanIn t.pk members n opcodeData reduceTag
          (partialResult members lib op t.handle data) root])
      (if r = root then totalResult members lib op t.handle data (op.merge t.handle) root
      else recvbuf) := by
  have hlocal := localRoot_rootFor hroot
  have hpart : ∀ i < members.length,
      (partialResult members lib op t.handle data i).length = count :=
    fun i hi => length_partialResult hi hlength hop hlib
  rw [partOf_cons, partOf_cons, partOf_nil, List.append_nil]
  by_cases hone : OneCluster members
  · -- nothing is sent over the wide area
    have hsame : clusterAt members r = clusterAt members root := by
      rw [clusterAt_of_getElem? (List.getElem?_eq_getElem h.rank_lt),
        clusterAt_of_getElem? (List.getElem?_eq_getElem hroot)]
      exact hone.2 _ (List.getElem_mem h.rank_lt) _ (List.getElem_mem hroot)
    have hself : rootFor members root r = root := if_pos hsame
    have hothers := others_of_oneCluster hone hroot
    have hempty : fanIn (β := α) t.pk members n opcodeData reduceTag
        (partialResult members lib op t.handle data) root = [] := by
      apply List.flatMap_eq_nil_iff.mpr
      intro k hk
      exact if_neg fun hne => List.filter_eq_nil_iff.mp hothers k hk (decide_eq_true hne)
    have hlocals : ∀ i ∈ localsOf members r, (data i).length = (data r).length := fun i hi =>
      (hlength i (mem_localsOf.mp hi).1).trans (hlength r h.rank_lt).symm
    have hk := h.peers_root hone hroot
    rw [Empi.reduce, if_pos (h.commIsLocal.mpr hone), hempty]
    rw [← hself] at hk
    have hreduce := h.follows_pmpiReduce lib op t.handle hlocal hk recvbuf hlocals
    rw [partOf_cons, partOf_nil, List.append_nil, hself] at hreduce
    simp only [sendsOf, receivesOf, List.filter_nil, List.map_nil, List.append_nil]
    by_cases hr : r = root
    · subst hr
      rw [if_pos rfl] at hreduce ⊢
      rw [totalResult, hothers]
      exact hreduce
    · rw [if_neg (Ne.symm hr)] at hreduce
      rw [if_neg hr]
      exact hreduce
  · have hsupports := hfits.resolve_left hone
    obtain ⟨k, hk, hprogram⟩ := h.reduce_eq (t := t) hone hroot lib op (data r) recvbuf fresh
    have hreduce := h.follows_reduceLocally hlocal hk hlength hop hlib hsupports.holds fresh
    rw [partOf_cons, partOf_nil, List.append_nil] at hreduce
    rw [hprogram]
    refine hreduce.bind ?_
    rw [sendsOf_fanIn h.rank_lt]
    by_cases hr : r = root
    · subst hr
      have hself : rootFor members r r = r := if_pos rfl
      rw [if_pos rfl, if_pos hself, if_pos rfl, if_neg fun h => h.1 rfl, List.nil_append,
        totalResult, ← foldl_reduceFrom (op.merge t.handle)
          (partialResult members lib op t.handle data) (clusterAt members r) (clustersIn members)
          (partialResult members lib op t.handle data r,
            partialResult members lib op t.handle data r)]
      have hloop := (h.follows_reduceFrom hpk hsupports hpart
        (hpart r h.rank_lt)).bind (f := fun s => (.done s.2 : Caller α (List α))) (.done _)
      rwa [List.append_nil] at hloop
    · rw [if_neg hr, receivesOf_fanIn, if_neg hr, List.append_nil, if_neg hr]
      by_cases hsends : clusterAt members r ≠ clusterAt members root ∧
          coordinatorFor members r = r
      · have hself : rootFor members root r = r := by
          rw [rootFor, if_neg hsends.1, hsends.2]
        have hsendable : t.pk.Sendable (partialResult members lib op t.handle data r).length := by
          rw [hpart r h.rank_lt]
          exact hsupports.sendable
        rw [if_pos hsends, if_pos hself, if_pos hsends]
        have hsend := (h.follows_sendMessage (β := α) hpk hsendable reduceTag hroot).bind
          (f := fun _ => (.done recvbuf : Caller α (List α))) (.done _)
        rwa [List.append_nil] at hsend
      · rw [if_neg hsends, if_neg hsends]
        exact .done _

theorem polite_reduce (h : View members n r p c) (sendbuf recvbuf fresh : List α) (root : Nat) :
    Polite members n r (Empi.reduce p c lib op t sendbuf recvbuf fresh root) := by
  have hlocally : ∀ localRoot rank,
      Polite members n r (Empi.reduceLocally c lib op t localRoot rank sendbuf fresh) := by
    intro localRoot rank
    refine (h.polite_pmpiReduce lib op t.handle rank sendbuf fresh).bind fun buffer => ?_
    split
    · exact .ofOption _
    · exact .done buffer
  unfold Empi.reduce
  split
  · exact h.polite_pmpiReduce lib op t.handle root sendbuf recvbuf
  · refine (Keeps.ofOption _).bind fun localRoot => (Keeps.ofOption _).bind fun rank =>
      (hlocally localRoot rank).bind fun buffer => ?_
    split
    · refine (Keeps.foldlM ?_ _).bind fun s => .done s.2
      intro s i _
      refine (Keeps.ofOption _).bind fun coordinator => ?_
      split
      · exact (h.polite_receiveMessage (by decide) s.1 coordinator).bind fun buffer =>
          (Keeps.ofOption _).bind fun recvbuf => .done _
      · exact .done s
    · split
      · exact (h.polite_sendMessage (by decide) buffer root).bind fun _ => .done recvbuf
      · exact .done recvbuf

end View

/-! ### Reductions that are not supported -/

section Yields

variable {α : Type} {c : Communicator} {lib : Library α} {op : Operation α} {type : Int}
  {count : Nat}

end Yields

/-- Where the members are in several clusters, there is another one. -/
theorem exists_other_cluster {members : List Pid} {root : Nat} (hremote : ¬ OneCluster members)
    (hroot : root < members.length) :
    ∃ k ∈ clustersIn members, k ≠ clusterAt members root := by
  by_contra hnone
  push Not at hnone
  refine hremote ⟨List.ne_nil_of_length_pos (Nat.zero_lt_of_lt hroot), ?_⟩
  have hall : ∀ pid ∈ members, getClusterRank pid = clusterAt members root := by
    intro pid hpid
    obtain ⟨i, hi, rfl⟩ := List.getElem_of_mem hpid
    rw [← clusterAt_of_getElem? (List.getElem?_eq_getElem hi)]
    exact hnone _ (clusterAt_mem_clustersIn hi)
  exact fun pid hpid pid' hpid' => (hall pid hpid).trans (hall pid' hpid').symm

namespace View

variable {α : Type} {t : ElementType α} {members : List Pid} {n r root count : Nat}
  {p : Process} {c : Communicator} {lib : Library α} {op : Operation α}

section

variable (h : View members n r p c) (hop : op.Associates t.handle count)
  (hlib : lib.Reduces op t.handle count) {sendbuf : List α} (hsendbuf : sendbuf.length = count)
  {k : Nat} (hk : c.peers[k]? = some r)

include h hop hlib hsendbuf hk

end

end View

/-! ### Rows of reductions -/

/-- `EMPI_Reduce` of `count` elements to the rank `root`, with what is in the buffers of the
members, and what `malloc` yields to them. -/
structure ReduceCall (α : Type) where
  op : Operation α
  type : ElementType α
  count : Nat
  root : Nat
  sendbuf : Nat → List α
  recvbuf : Nat → List α
  fresh : Nat → List α

namespace ReduceCall

variable {α : Type}

/-- What a member runs. -/
def body (lib : Library α) (call : ReduceCall α) (r : Nat) (p : Process) (c : Communicator) :
    Caller α (List α) :=
  Empi.reduce p c lib call.op call.type (call.sendbuf r) (call.recvbuf r) (call.fresh r) call.root

/-- The call is as MPI asks, with an operation that is associative and commutative, and
the library does its part. -/
structure Legal (lib : Library α) (size : Nat) (call : ReduceCall α) : Prop where
  lawful : call.type.pk.Lawful
  root : call.root < size
  length : ∀ r < size, (call.sendbuf r).length = call.count
  associates : call.op.Associates call.type.handle call.count
  commutes : call.op.Commutes call.type.handle call.count
  reduces : lib.Reduces call.op call.type.handle call.count

/-- The call is left to the library, or nothing stops it and the function of the operation
makes of the results of the clusters what the library's operation makes of them. -/
def Works (lib : Library α) (members : List Pid) (call : ReduceCall α) : Prop :=
  OneCluster members ∨ call.op.Supports call.type call.count ∧
    totalResult members lib call.op call.type.handle call.sendbuf
        (call.op.merge call.type.handle) call.root =
      totalResult members lib call.op call.type.handle call.sendbuf
        (call.op.combine call.type.handle) call.root

/-- What is in the receive buffers after the call: at the root the reduction of all send
buffers, and elsewhere what was there. -/
def reduced (size : Nat) (call : ReduceCall α) (r : Nat) : List α :=
  if r = call.root then upTo (call.op.combine call.type.handle) call.sendbuf (size - 1)
  else call.recvbuf r

/-- The root gets the reduction of all send buffers where it combines as the library does. -/
theorem Legal.total_eq {lib : Library α} {members : List Pid} {call : ReduceCall α}
    (h : call.Legal lib members.length) :
    totalResult members lib call.op call.type.handle call.sendbuf
        (call.op.combine call.type.handle) call.root =
      upTo (call.op.combine call.type.handle) call.sendbuf (members.length - 1) :=
  totalResult_eq h.root h.length h.associates h.commutes h.reduces

end ReduceCall

namespace System

variable {α : Type} {cfg : Server.Config} {order : Server.HashOrder} {s : System} {n : Nat}
  {sc : Server.Communicator} {lib : Library α} {calls : List (ReduceCall α)}

/-- A reduction is performed where nothing stops it. -/
theorem performed_reduce (hreach : System.Reachable cfg order s)
    (hsc : s.server[n]? = some (some sc))
    (hrunning : ∀ pid ∈ sc.tables.members, (s.processes pid).isSome) {call : ReduceCall α}
    (hlegal : call.Legal lib sc.tables.members.length)
    (hends : OneCluster sc.tables.members ∨ call.op.Supports call.type call.count) :
    Session.Performed sc.tables.members n (fun _ => True)
      (s.caller n sc.tables.members (call.body lib)) fun r =>
        if r = call.root then totalResult sc.tables.members lib call.op call.type.handle
          call.sendbuf (call.op.merge call.type.handle) call.root
        else call.recvbuf r := by
  obtain ⟨hpk, hroot, hlength, hop, _, hlib⟩ := hlegal
  refine performed hreach hsc hrunning [reduceBlock sc.tables.members
      (rootFor sc.tables.members call.root) call.sendbuf,
    fanIn call.type.pk sc.tables.members n opcodeData reduceTag (partialResult sc.tables.members
      lib call.op call.type.handle call.sendbuf) call.root] ?_ ?_ ?_ fun _ _ => trivial
  · intro r p c hview
    exact hview.polite_reduce _ _ _ _
  · intro r p c hview
    exact hview.follows_reduce hpk hroot hlength hop hlib hends (call.recvbuf r) (call.fresh r)
  · intro b hb
    rcases List.mem_cons.mp hb with rfl | hb
    · exact inside_libraryBlock _ _ _
    · rw [List.mem_singleton.mp hb]
      exact inside_fanIn hroot _

/-- **A reduction that works** is performed as it is to be. -/
theorem performed_reduced (hreach : System.Reachable cfg order s)
    (hsc : s.server[n]? = some (some sc))
    (hrunning : ∀ pid ∈ sc.tables.members, (s.processes pid).isSome) {call : ReduceCall α}
    (hlegal : call.Legal lib sc.tables.members.length) (hworks : call.Works lib sc.tables.members) :
    Session.Performed sc.tables.members n (fun _ => True)
      (s.caller n sc.tables.members (call.body lib)) (call.reduced sc.tables.members.length) := by
  refine (performed_reduce hreach hsc hrunning hlegal (hworks.imp_right And.left)).congr
    fun r _ => ?_
  rw [ReduceCall.reduced, ← hlegal.total_eq]
  rcases hworks with hone | ⟨_, hsame⟩
  · rw [totalResult_of_oneCluster hone hlegal.root _ (call.op.combine call.type.handle)]
  · rw [hsame]

end System

/-! ### Operations that combine element by element -/

/-- A library that combines the buffers from the last to the first. -/
def Library.inRankOrder (α : Type) : Library α where
  reduce op type bufs := (reduction (op.combine type) bufs).getD []

theorem Library.reduces_inRankOrder {α : Type} (op : Operation α) (type : Int) (count : Nat) :
    (Library.inRankOrder α).Reduces op type count := by
  intro bufs x _ hx
  show (reduction (op.combine type) bufs).getD [] = x
  rw [hx]
  rfl

end EsalsaMpi
