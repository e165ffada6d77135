import EsalsaMpi.Backend.Allgatherv.Plan
import EsalsaMpi.Library.Choreography

/-!
# What `EMPI_Allgatherv` computes

Each member goes through its part of the plan (`Layout.follows_allgatherv`), so
in every run it ends with what the plan says.  Whatever the members send, each
block arrives exactly when the counts fit and no member that sends anything
comes behind a member of a later cluster (`allgathers_iff`): such a member is
filed under the later cluster, and its block is read from a segment that its
data is not in.  The counts fit (`CountsFit`) where their sum is an `int`, the
data lies in the buffer of the sum, and what a cluster sends is a message.
-/

namespace EsalsaMpi

open ProcessNetwork Blocks

/-- A loop that counts, when all rounds succeed. -/
theorem foldlM_range_eq_some {σ : Type} {f : σ → Nat → Option σ} {n : Nat} {s : σ}
    (states : Nat → σ) (hstart : s = states 0)
    (h : ∀ i < n, f (states i) i = some (states (i + 1))) :
    (List.range n).foldlM f s = some (states n) := by
  induction n with
  | zero => exact congrArg some hstart
  | succ n ih =>
      rw [List.range_succ, List.foldlM_append, ih fun i hi => h i (Nat.lt_succ_of_lt hi)]
      simp [h n (Nat.lt_succ_self n)]

theorem modify_map_range (f : Nat → Nat) (m k x : Nat) :
    ((List.range m).map f).modify k (· + x) =
      (List.range m).map fun j => f j + if k = j then x else 0 := by
  apply List.ext_getElem (by simp)
  intro j _ _
  rw [List.getElem_modify]
  simp
  split <;> simp

theorem scanl_map_range (f : Nat → Nat) (m : Nat) :
    (((List.range m).map f).scanl (· + ·) 0).take m =
      (List.range m).map fun k => ∑ j ∈ Finset.range k, f j := by
  apply List.ext_getElem (by simp)
  intro k hk _
  have hkm : k < m := by simpa using hk
  rw [List.getElem_take, List.getElem_map, List.getElem_range, List.getElem_scanl,
    ← List.sum_eq_foldl, ← List.map_take, List.take_range, Nat.min_eq_left hkm.le]
  rfl

namespace Layout

variable {L : Layout} {n r : Nat} {p : Process} {c : Communicator} {recvcounts : Nat → Nat}

/-- **`get_count_sums` computes the segments**, where the number of all elements is an
`int`. -/
theorem getCountSums_eq (h : L.Shows n r p c) (htotal : L.total recvcounts < 2 ^ 31) :
    getCountSums c recvcounts =
      some ((List.range L.clusters).map (L.segmentSize recvcounts),
        (List.range L.clusters).map (L.segmentStart recvcounts), L.total recvcounts) := by
  have hsums : sumCounts c recvcounts = some ((List.range L.clusters).map
      (L.segmentSize recvcounts), L.total recvcounts) := by
    rw [sumCounts, h.globalSize, h.clusterCount]
    apply foldlM_range_eq_some fun i => ((List.range L.clusters).map
      (filed L.index recvcounts i), ∑ j ∈ Finset.range i, recvcounts j)
    · have hzero : filed L.index recvcounts 0 = fun _ => 0 := rfl
      simp [hzero]
    · intro i hi
      have hlt : L.index i < ((List.range L.clusters).map (filed L.index recvcounts i)).length := by
        simpa using L.index_lt i hi
      have hsum : (∑ j ∈ Finset.range i, recvcounts j) + recvcounts i < 2 ^ 31 := by
        rw [← Finset.sum_range_succ]
        refine Nat.lt_of_le_of_lt (Finset.sum_le_sum_of_subset ?_) htotal
        exact Finset.range_subset_range.mpr hi
      rw [addCount, h.memberClusterIndex i hi, Option.bind_some, if_pos ⟨hlt, hsum⟩]
      simp only [modify_map_range, ← filed_succ, Finset.sum_range_succ]
  rw [getCountSums, hsums, Option.map_some, h.clusterCount, scanl_map_range]
  rfl

/-- What `get_count_sums` returns is the number of all elements, and an `int`. -/
theorem total_of_getCountSums (h : L.Shows n r p c) {sums offsets : List Nat} {sum : Nat}
    (hsums : getCountSums c recvcounts = some (sums, offsets, sum)) :
    L.total recvcounts = sum ∧ sum < 2 ^ 31 := by
  have hloop : ∀ m s, (List.range m).foldlM (addCount c recvcounts)
      (List.replicate c.clusterCount 0, 0) = some s →
        ∑ j ∈ Finset.range m, recvcounts j = s.2 ∧ s.2 < 2 ^ 31 := by
    intro m
    induction m with
    | zero =>
        intro s hs
        cases hs
        exact ⟨rfl, Nat.two_pow_pos 31⟩
    | succ m ih =>
        intro s hs
        rw [List.range_succ, List.foldlM_append] at hs
        obtain ⟨s', hs', hlast⟩ := Option.bind_eq_some_iff.mp hs
        obtain ⟨hsum, _⟩ := ih s' hs'
        obtain ⟨s'', hround, hend⟩ := Option.bind_eq_some_iff.mp hlast
        cases hend
        obtain ⟨k, _, hround⟩ := Option.bind_eq_some_iff.mp hround
        split at hround
        · next hlt =>
            cases hround
            rw [Finset.sum_range_succ, hsum]
            exact ⟨rfl, hlt.2⟩
        · cases hround
  obtain ⟨s, hs, heq⟩ := Option.map_eq_some_iff.mp hsums
  cases heq
  rw [sumCounts, h.globalSize] at hs
  exact hloop L.size s hs

/-- The counts of a call: all elements together are an `int` and in the buffer, and each
segment fits into a message. -/
structure CountsFit {α : Type} (L : Layout) (t : ElementType α) (recvcounts : Nat → Nat) :
    Prop where
  total : L.total recvcounts < 2 ^ 31
  holds : t.Holds (L.total recvcounts)
  sendable : ∀ k < L.clusters, t.pk.Sendable (L.segmentSize recvcounts k)

section Parts

variable {α : Type} {pk : Packing α} {type : Int} {sendbuf : Nat → List α}
  {fresh : Nat → Memory α} {P : Nat → Process} {C : Nat → Communicator} {i : Nat}

theorem rankIsLocal_eq (h : L.Shows n r p c) (hi : i < L.size) :
    rankIsLocal p c i = decide (L.cluster i = L.cluster r) := by
  rw [rankIsLocal, h.getClusterRank i hi, h.clusterRank]
  exact Bool.eq_iff_iff.mpr (by simp)

/-- One round of the gathering, for a member of the cluster. -/
theorem follows_gatherFrom (h : L.Shows n r p c) (hi : i < L.size)
    (hcluster : L.cluster i = L.cluster r) (hlength : (sendbuf i).length = recvcounts i)
    (mem : Memory α) {o sum : Nat} (hroom : o + recvcounts i ≤ sum) :
    Follows (gatherFrom p c recvcounts sum (sendbuf r) (mem, o) i)
      (if i ≠ r then [.recv ⟨.gather, i, r⟩ (.elements (sendbuf i))] else [])
      (mem.write o (sendbuf i), o + recvcounts i) := by
  rw [gatherFrom, rankIsLocal_eq h hi, if_pos (decide_eq_true hcluster), h.globalRank]
  have hrest : Follows (χ := Link) (μ := Packet α) (α := Memory α × Nat)
      (if o + recvcounts i ≤ sum then .done (mem.write o (sendbuf i), o + recvcounts i)
        else .fail) [] (mem.write o (sendbuf i), o + recvcounts i) := by
    rw [if_pos hroom]
    exact .done _
  by_cases hir : i = r
  · subst hir
    have htake : (sendbuf i).take (recvcounts i) = sendbuf i := by
      rw [← hlength, List.take_length]
    rw [if_neg (not_not.mpr rfl), if_pos rfl, hlength, if_pos (Nat.le_refl _), htake]
    exact hrest
  · rw [if_pos hir, if_neg hir]
    have hreceive : Follows (gatherReceive c i (recvcounts i))
        [.recv ⟨.gather, i, r⟩ (.elements (sendbuf i))] (sendbuf i) := by
      rw [gatherReceive, h.globalRank]
      apply Follows.recv
      simp only [hlength, Nat.le_refl, if_true]
      exact .done _
    exact hreceive.bind hrest

/-- **The gathering.** -/
theorem follows_gather (h : L.Shows n r p c) (hr : L.IsCoordinator r)
    (hlength : ∀ i < L.size, (sendbuf i).length = recvcounts i) :
    Follows ((List.range c.globalSize).foldlM
        (gatherFrom p c recvcounts (L.total recvcounts) (sendbuf r))
        (fresh r, L.segmentStart recvcounts (L.cluster r)))
      (L.gatherTrace sendbuf r)
      (L.gathered recvcounts sendbuf fresh (L.cluster r) L.size,
        L.segmentStart recvcounts (L.cluster r) +
          filed L.cluster recvcounts L.size (L.cluster r)) := by
  rw [h.globalSize, gatherTrace, if_pos hr]
  apply Follows.foldlM_range fun i => (L.gathered recvcounts sendbuf fresh (L.cluster r) i,
    L.segmentStart recvcounts (L.cluster r) + filed L.cluster recvcounts i (L.cluster r))
  · have hself : L.coordinator (L.cluster r) = r := hr.symm
    simp [gathered, hself, filedData]
  · intro i hi
    rw [gathered, gathered, filedData_succ, filed_succ]
    by_cases hcluster : L.cluster i = L.cluster r
    · have hroom : L.segmentStart recvcounts (L.cluster r) +
          filed L.cluster recvcounts i (L.cluster r) + recvcounts i ≤ L.total recvcounts := by
        have hfiled := filed_add_le recvcounts hi hcluster
        have hsegment := @segmentStart_add_filed_le L recvcounts (L.cluster r)
        omega
      have hround := follows_gatherFrom h hi hcluster (hlength i hi)
        ((fresh (L.coordinator (L.cluster r))).write (L.segmentStart recvcounts (L.cluster r))
          (filedData L.cluster sendbuf i (L.cluster r))) hroom
      have hplace : filed L.cluster recvcounts i (L.cluster r) =
          (filedData L.cluster sendbuf i (L.cluster r)).length :=
        (length_filedData (fun j hj => hlength j (by omega)) _).symm
      rw [hplace, Memory.write_write] at hround
      simpa [hplace, hcluster, Nat.add_assoc] using hround
    · have hlocal := rankIsLocal_eq h hi
      rw [decide_eq_false hcluster] at hlocal
      simp only [gatherFrom, hlocal, hcluster, Bool.false_eq_true, if_false, false_and,
        List.append_nil, Nat.add_zero]
      exact .done _

/-- The message that takes the segment of cluster `k` to the coordinator of
cluster `j`. -/
def message (L : Layout) (pk : Packing α) (P : Nat → Process) (C : Nat → Communicator)
    (segment : Nat → List α) (k j : Nat) : DataMessage :=
  (bcastSend pk (P (L.coordinator k)).pid (segment k) (C (L.coordinator k)) j).getD default

/-- **A message of the exchange** is what `messaging_bcast` sends, and what the
coordinator it goes to waits for. -/
theorem message_spec (hpk : pk.Lawful) (hshows : ∀ r < L.size, L.Shows n r (P r) (C r))
    {segment : Nat → List α} {k j : Nat} (hsend : pk.Sendable (segment k).length)
    (hk : k < L.clusters) (hj : j < L.clusters) :
    bcastSend pk (P (L.coordinator k)).pid (segment k) (C (L.coordinator k)) j =
        some (L.message pk P C segment k j) ∧
      (L.message pk P C segment k j).dest = L.coordinator j ∧
      matchMessage (L.message pk P C segment k j) n (L.coordinator k) bcastTag = true ∧
      ∀ buf : List α, buf.length = (segment k).length →
        (unpackMessage pk buf buf.length type (L.message pk P C segment k j)).map (·.1) =
          some (segment k) := by
  have h := hshows (L.coordinator k) (L.coordinator_lt k hk)
  obtain ⟨pid, hpid⟩ : ∃ pid, (C (L.coordinator k)).getPid (L.coordinator j) = some pid := by
    obtain ⟨pid, hpid, _⟩ := Option.map_eq_some_iff.mp
      (h.getClusterRank (L.coordinator j) (L.coordinator_lt j hj))
    exact ⟨pid, hpid⟩
  obtain ⟨payload, hsent, _⟩ := doSend_eq_some (P (L.coordinator k)).pid hpk hsend
    opcodeCollectiveBcast bcastTag hpid
  have hbcast : bcastSend pk (P (L.coordinator k)).pid (segment k) (C (L.coordinator k)) j =
      some (L.message pk P C segment k j) := by
    rw [message, bcastSend, h.coordinators j hj, Option.bind_some, hsent, Option.getD_some]
  have hmessage := hbcast
  rw [bcastSend, h.coordinators j hj, Option.bind_some] at hmessage
  have hfields := Option.some.inj (hmessage.symm.trans hsent)
  refine ⟨hbcast, ?_, ?_, ?_⟩
  · rw [hfields]
    rfl
  · rw [hfields, matchMessage_eq_true_iff]
    exact ⟨h.handle.symm, Or.inr (congrArg Int.ofNat h.globalRank.symm), Or.inr rfl⟩
  · intro buf hbuf
    rw [hbuf, (unpackMessage_sent hpk buf type hmessage).1, Option.map_some, delivered,
      List.drop_of_length_le hbuf.le, List.append_nil]

/-- A coordinator's broadcast to the others. -/
theorem follows_bcastTo (hpk : pk.Lawful) (hshows : ∀ r < L.size, L.Shows n r (P r) (C r))
    (segment : Nat → List α) (hr : L.IsCoordinator r) (hlt : r < L.size)
    (hsend : pk.Sendable (segment (L.cluster r)).length) :
    Follows (bcastTo pk L.clusters (P r) (C r) (segment (L.cluster r)))
      (L.segmentTrace (L.message pk P C segment) r (L.cluster r)) () := by
  have hself : L.coordinator (L.cluster r) = r := hr.symm
  have hcluster := L.cluster_lt r hlt
  have hbcast : ∀ j ∈ List.range L.clusters, j ≠ (P r).clusterRank →
      bcastSend pk (P r).pid (segment (L.cluster r)) (C r) j =
        some (L.message pk P C segment (L.cluster r) j) := by
    intro j hj _
    have hspec := (@message_spec _ _ _ pk 0 _ _ hpk hshows segment _ _ hsend hcluster
      (List.mem_range.mp hj)).1
    rwa [hself] at hspec
  have hdest : ∀ j < L.clusters,
      (L.message pk P C segment (L.cluster r) j).dest.toNat = L.coordinator j := by
    intro j hj
    rw [(@message_spec _ _ _ pk 0 _ _ hpk hshows segment _ _ hsend hcluster hj).2.1, Int.toNat_natCast]
  have hsends := Follows.foldr_send (f := fun j => (⟨.exchange, (C r).globalRank,
      (L.message pk P C segment (L.cluster r) j).dest.toNat⟩ : Link))
    (g := fun j => (.wideArea (L.message pk P C segment (L.cluster r) j) : Packet α))
    (Follows.done ()) ((List.range L.clusters).filter (· ≠ (P r).clusterRank))
  have htrace : ((List.range L.clusters).filter (· ≠ (P r).clusterRank)).map (fun j =>
      (.send ⟨.exchange, (C r).globalRank,
        (L.message pk P C segment (L.cluster r) j).dest.toNat⟩
        (.wideArea (L.message pk P C segment (L.cluster r) j)) : Action Link (Packet α))) ++ [] =
      L.segmentTrace (L.message pk P C segment) r (L.cluster r) := by
    rw [List.append_nil, segmentTrace, if_pos rfl, map_filter_eq_flatMap,
      (hshows r hlt).clusterRank, (hshows r hlt).globalRank]
    apply List.flatMap_congr
    intro j hj
    rw [hdest j (List.mem_range.mp hj)]
  rw [htrace] at hsends
  rw [bcastTo, messagingBcast, bcastFrom_eq hbcast]
  simp only [List.foldr_map, if_true]
  exact hsends

/-- **The exchange of one segment.** -/
theorem follows_exchangeSegment (hpk : pk.Lawful)
    (hsend : ∀ k < L.clusters, pk.Sendable (L.segmentSize recvcounts k))
    (hshows : ∀ r < L.size, L.Shows n r (P r) (C r)) (hr : L.IsCoordinator r) (hlt : r < L.size)
    (hi : i < L.clusters) :
    Follows (exchangeSegment pk type L.clusters (P r) (C r)
        ((List.range L.clusters).map (L.segmentSize recvcounts))
        ((List.range L.clusters).map (L.segmentStart recvcounts))
        (L.exchanged recvcounts sendbuf fresh (L.cluster r) i) i)
      (L.segmentTrace (L.message pk P C (L.segment recvcounts sendbuf fresh)) r i)
      (L.exchanged recvcounts sendbuf fresh (L.cluster r) (i + 1)) := by
  have h := hshows r hlt
  have hexchange : exchangeSegment pk type L.clusters (P r) (C r)
      ((List.range L.clusters).map (L.segmentSize recvcounts))
      ((List.range L.clusters).map (L.segmentStart recvcounts))
      (L.exchanged recvcounts sendbuf fresh (L.cluster r) i) i =
      if L.coordinator i = r then
        bcastTo pk L.clusters (P r) (C r)
          ((L.exchanged recvcounts sendbuf fresh (L.cluster r) i).read
            (L.segmentStart recvcounts i) (L.segmentSize recvcounts i)) >>= fun _ =>
          .done (L.exchanged recvcounts sendbuf fresh (L.cluster r) i)
      else
        bcastReceive pk type (C r)
          ((L.exchanged recvcounts sendbuf fresh (L.cluster r) i).read
            (L.segmentStart recvcounts i) (L.segmentSize recvcounts i)) (L.coordinator i) >>=
          fun xs => .done ((L.exchanged recvcounts sendbuf fresh (L.cluster r) i).write
            (L.segmentStart recvcounts i) xs) := by
    rw [exchangeSegment, h.coordinators i hi, List.getElem?_map, List.getElem?_map,
      List.getElem?_range hi, h.globalRank]
    rfl
  rw [hexchange, exchanged]
  by_cases hown : i = L.cluster r
  · subst hown
    rw [if_pos hr.symm, if_pos rfl, read_exchanged _ (Or.inr rfl)]
    have hsent := follows_bcastTo hpk hshows (L.segment recvcounts sendbuf fresh) hr hlt
      (by rw [length_segment]; exact hsend _ (L.cluster_lt r hlt))
    have hbind := hsent.bind (f := fun _ => .done (L.exchanged recvcounts sendbuf fresh
      (L.cluster r) (L.cluster r))) (.done _)
    rwa [List.append_nil] at hbind
  · have hother : L.coordinator i ≠ r := by
      rintro rfl
      exact hown (L.cluster_coordinator i hi).symm
    rw [if_neg hother, if_neg hown, segmentTrace, if_neg hown]
    obtain ⟨_, _, hmatch, hunpack⟩ := @message_spec _ _ _ pk type _ _ hpk hshows
      (L.segment recvcounts sendbuf fresh) i (L.cluster r) (by rw [length_segment]; exact hsend i hi)
      hi (L.cluster_lt r hlt)
    have hreceive : Follows (bcastReceive pk type (C r)
        ((L.exchanged recvcounts sendbuf fresh (L.cluster r) i).read
          (L.segmentStart recvcounts i) (L.segmentSize recvcounts i)) (L.coordinator i))
        [.recv ⟨.exchange, L.coordinator i, r⟩ (.wideArea (L.message pk P C
          (L.segment recvcounts sendbuf fresh) i (L.cluster r)))]
        (L.segment recvcounts sendbuf fresh i) := by
      rw [bcastReceive, h.globalRank]
      apply Follows.recv
      simp only [h.handle, hmatch, if_true]
      rw [hunpack _ (by simp)]
      exact .done _
    exact hreceive.bind (.done _)

/-- **The broadcast in the cluster.** -/
theorem follows_bcastLocally (h : L.Shows n r p c) {whole : List α} {mem : Memory α}
    (hmem : L.IsCoordinator r → mem.read 0 (L.total recvcounts) = whole) :
    Follows (bcastLocally p c (L.coordinator (L.cluster r)) (L.total recvcounts) mem)
      (L.bcastTrace whole r)
      (if L.IsCoordinator r then mem else mem.write 0 whole) := by
  rw [bcastLocally, bcastTrace, h.globalRank]
  by_cases hr : L.IsCoordinator r
  · rw [if_pos hr, if_pos (show r = L.coordinator (L.cluster r) from hr), if_pos hr,
      h.globalSize]
    apply Follows.foldlM_range fun _ => mem
    · rfl
    · intro i hi
      simp only [rankIsLocal_eq h hi, decide_eq_true_eq, hmem hr]
      split
      · exact .send (.done _)
      · exact .done _
  · rw [if_neg hr, if_neg (show ¬ r = L.coordinator (L.cluster r) from hr), if_neg hr]
    exact .recv (.done _)

/-- **The copies to the receive buffer.** -/
theorem copyBlocks_eq (h : L.Shows n r p c) (displs : Nat → Nat) (buffer recvbuf : Memory α) :
    (List.range c.globalSize).foldlM
        (copyBlock c recvcounts (L.total recvcounts) displs buffer)
        (recvbuf, (List.range L.clusters).map (L.segmentStart recvcounts)) =
      some (L.copied recvcounts buffer recvbuf displs L.size, (List.range L.clusters).map
        fun k => L.segmentStart recvcounts k + filed L.index recvcounts L.size k) := by
  rw [h.globalSize]
  apply foldlM_range_eq_some fun i => (L.copied recvcounts buffer recvbuf displs i,
    (List.range L.clusters).map fun k =>
      L.segmentStart recvcounts k + filed L.index recvcounts i k)
  · rfl
  · intro i hi
    have hroom := @blockStart_add_le_total L recvcounts i hi
    rw [copyBlock, h.memberClusterIndex i hi, Option.bind_some, List.getElem?_map,
      List.getElem?_range (L.index_lt i hi), Option.map_some, Option.bind_some]
    unfold blockStart at hroom
    rw [if_pos hroom, modify_map_range]
    simp only [filed_succ, Nat.add_assoc, copied, blockStart]

/-- What is in the buffer of the member `r` after the broadcast. -/
def finalBuffer (L : Layout) (recvcounts : Nat → Nat) (sendbuf : Nat → List α)
    (fresh : Nat → Memory α) (r : Nat) : Memory α :=
  if L.IsCoordinator r then
    L.exchanged recvcounts sendbuf fresh (L.cluster r) L.clusters
  else
    (fresh r).write 0 (L.whole recvcounts sendbuf fresh)

/-- What the member `r` ends with. -/
def result (L : Layout) (recvcounts : Nat → Nat) (sendbuf : Nat → List α)
    (fresh recvbuf : Nat → Memory α) (displs : Nat → Nat → Nat) (r : Nat) : Memory α :=
  L.copied recvcounts (L.finalBuffer recvcounts sendbuf fresh r) (recvbuf r) (displs r) L.size

/-- **After the broadcast** all members have the same buffer. -/
theorem read_finalBuffer (r : Nat) :
    (L.finalBuffer recvcounts sendbuf fresh r).read 0 (L.total recvcounts) =
      L.whole recvcounts sendbuf fresh := by
  unfold finalBuffer
  split
  · exact read_exchanged_whole _
  · have hlength := congrArg List.length
      (@read_exchanged_whole _ L recvcounts sendbuf fresh (L.cluster r))
    rw [Memory.length_read] at hlength
    rw [hlength, Memory.read_write]

/-- **The coordinator's part**: it gathers and exchanges. -/
theorem follows_coordinate (hpk : pk.Lawful)
    (hsend : ∀ k < L.clusters, pk.Sendable (L.segmentSize recvcounts k))
    (hshows : ∀ r < L.size, L.Shows n r (P r) (C r))
    (hlength : ∀ i < L.size, (sendbuf i).length = recvcounts i) (hr : L.IsCoordinator r)
    (hlt : r < L.size) :
    Follows (coordinate pk type L.clusters (P r) (C r) recvcounts
        ((List.range L.clusters).map (L.segmentSize recvcounts))
        ((List.range L.clusters).map (L.segmentStart recvcounts)) (L.total recvcounts)
        (sendbuf r) (fresh r))
      (L.gatherTrace sendbuf r ++
        L.exchangeTrace (L.message pk P C (L.segment recvcounts sendbuf fresh)) r)
      (L.exchanged recvcounts sendbuf fresh (L.cluster r) L.clusters) := by
  have h := hshows r hlt
  have hindex : L.index r = L.cluster r := by
    have hcoordinator := L.index_coordinator (L.cluster r) (L.cluster_lt r hlt)
    rwa [← show r = L.coordinator (L.cluster r) from hr] at hcoordinator
  have hoffset : (((C r).tables.memberClusterIndex[(C r).globalRank]?).bind
      (((List.range L.clusters).map (L.segmentStart recvcounts))[·]?)) =
        some (L.segmentStart recvcounts (L.cluster r)) := by
    rw [h.globalRank, h.memberClusterIndex r hlt, Option.bind_some, hindex, List.getElem?_map,
      List.getElem?_range (L.cluster_lt r hlt), Option.map_some]
  have hexchange : Follows ((List.range (C r).clusterCount).foldlM
      (exchangeSegment pk type L.clusters (P r) (C r)
        ((List.range L.clusters).map (L.segmentSize recvcounts))
        ((List.range L.clusters).map (L.segmentStart recvcounts)))
      (L.gathered recvcounts sendbuf fresh (L.cluster r) L.size))
      (L.exchangeTrace (L.message pk P C (L.segment recvcounts sendbuf fresh)) r)
      (L.exchanged recvcounts sendbuf fresh (L.cluster r) L.clusters) := by
    rw [h.clusterCount, exchangeTrace, if_pos hr]
    apply Follows.foldlM_range (L.exchanged recvcounts sendbuf fresh (L.cluster r))
    · rfl
    · intro i hi
      exact follows_exchangeSegment hpk hsend hshows hr hlt hi
  rw [coordinate, hoffset]
  exact (follows_gather h hr hlength).bind (f := fun gathered =>
    (List.range (C r).clusterCount).foldlM
      (exchangeSegment pk type L.clusters (P r) (C r)
        ((List.range L.clusters).map (L.segmentSize recvcounts))
        ((List.range L.clusters).map (L.segmentStart recvcounts))) gathered.1) hexchange

variable {t : ElementType α}

/-- **A member goes through its part of the plan**, where the counts fit. -/
theorem follows_allgatherv (hpk : t.pk.Lawful) (hfits : L.CountsFit t recvcounts)
    (hshows : ∀ r < L.size, L.Shows n r (P r) (C r))
    (hlength : ∀ i < L.size, (sendbuf i).length = recvcounts i) (recvbuf : Nat → Memory α)
    (displs : Nat → Nat → Nat) (hlt : r < L.size) :
    Follows (allgatherv t L.clusters (P r) (C r) recvcounts (sendbuf r) (recvbuf r)
        (fresh r) (displs r))
      (L.trace sendbuf (L.message t.pk P C (L.segment recvcounts sendbuf fresh))
        (L.whole recvcounts sendbuf fresh) r)
      (L.result recvcounts sendbuf fresh recvbuf displs r) := by
  have h := hshows r hlt
  -- the parts behind the exchange, which coordinators and the others share
  let copy : Memory α → Member α (Memory α) := fun buffer =>
    Proc.ofOption ((List.range (C r).globalSize).foldlM
      (copyBlock (C r) recvcounts (L.total recvcounts) (displs r) buffer)
      (recvbuf r, (List.range L.clusters).map (L.segmentStart recvcounts))) >>=
        fun received => .done received.1
  let rest : Memory α → Member α (Memory α) := fun buffer =>
    bcastLocally (P r) (C r) (L.coordinator (L.cluster r)) (L.total recvcounts) buffer >>= copy
  have hcopy : ∀ buffer, Follows (copy buffer) []
      (L.copied recvcounts buffer (recvbuf r) (displs r) L.size) := by
    intro buffer
    simp only [copy, copyBlocks_eq h]
    exact .done _
  have hrest : ∀ buffer, (L.IsCoordinator r → buffer.read 0 (L.total recvcounts) =
      L.whole recvcounts sendbuf fresh) →
      Follows (rest buffer) (L.bcastTrace (L.whole recvcounts sendbuf fresh) r)
        (L.copied recvcounts (if L.IsCoordinator r then buffer else
          buffer.write 0 (L.whole recvcounts sendbuf fresh)) (recvbuf r) (displs r) L.size) := by
    intro buffer hbuffer
    have hbind := (follows_bcastLocally h hbuffer).bind (f := copy) (hcopy _)
    rwa [List.append_nil] at hbind
  have hprogram : allgatherv t L.clusters (P r) (C r) recvcounts (sendbuf r) (recvbuf r)
      (fresh r) (displs r) =
      if r = L.coordinator (L.cluster r) then
        coordinate t.pk t.handle L.clusters (P r) (C r) recvcounts
          ((List.range L.clusters).map (L.segmentSize recvcounts))
          ((List.range L.clusters).map (L.segmentStart recvcounts)) (L.total recvcounts)
          (sendbuf r) (fresh r) >>= rest
      else
        .send ⟨.gather, r, L.coordinator (L.cluster r)⟩ (.elements (sendbuf r))
          (rest (fresh r)) := by
    have hfresh : (if t.Holds (L.total recvcounts) then some (fresh r) else none) =
        some (fresh r) := if_pos hfits.holds
    rw [allgatherv, getCountSums_eq h hfits.total, h.myCoordinator, h.globalRank]
    simp only [Proc.ofOption_some_bind, hfresh]
    rfl
  rw [hprogram, trace, result, finalBuffer]
  by_cases hr : L.IsCoordinator r
  · have hexchange := hrest (L.exchanged recvcounts sendbuf fresh (L.cluster r) L.clusters)
      fun _ => read_exchanged_whole _
    rw [if_pos hr] at hexchange
    rw [if_pos (show r = L.coordinator (L.cluster r) from hr), if_pos hr, ← List.append_assoc]
    exact (follows_coordinate hpk hfits.sendable hshows hlength hr hlt).bind hexchange
  · have hsend := hrest (fresh r) fun hcoordinator => absurd hcoordinator hr
    rw [if_neg hr] at hsend
    rw [if_neg (show ¬ r = L.coordinator (L.cluster r) from hr), if_neg hr, gatherTrace,
      exchangeTrace, if_neg hr, if_neg hr]
    exact .send hsend

/-- **Nobody gets through** where the number of all elements is no `int`, or the buffer does
not hold them. -/
theorem doomed_of_total (h : L.Shows n r p c)
    (hfails : ¬ (L.total recvcounts < 2 ^ 31 ∧ t.Holds (L.total recvcounts))) (clusterCount : Nat)
    (sendbuf : List α) (recvbuf fresh : Memory α) (displs : Nat → Nat) :
    Doomed (allgatherv t clusterCount p c recvcounts sendbuf recvbuf fresh displs) := by
  unfold allgatherv
  cases hsums : getCountSums c recvcounts with
  | none => exact .fail
  | some s =>
      obtain ⟨sums, offsets, sum⟩ := s
      obtain ⟨rfl, hlt⟩ := total_of_getCountSums h hsums
      show Doomed (Proc.ofOption (if t.Holds (L.total recvcounts) then some fresh else none) >>= _)
      rw [if_neg fun hholds => hfails ⟨hlt, hholds⟩]
      exact .fail

/-- **A coordinator does not get through** where its segment does not fit into a message. -/
theorem doomed_of_sendable (h : L.Shows n r p c) (hr : L.IsCoordinator r)
    (htotal : L.total recvcounts < 2 ^ 31 ∧ t.Holds (L.total recvcounts))
    (hclusters : 1 < L.clusters) (hsend : ¬ t.pk.Sendable (L.segmentSize recvcounts (L.cluster r)))
    (sendbuf : List α) (recvbuf fresh : Memory α) (displs : Nat → Nat) :
    Doomed (allgatherv t L.clusters p c recvcounts sendbuf recvbuf fresh displs) := by
  have hcluster := L.cluster_lt r h.rank_lt
  have hround : ∀ mem : Memory α, Doomed (exchangeSegment t.pk t.handle L.clusters p c
      ((List.range L.clusters).map (L.segmentSize recvcounts))
      ((List.range L.clusters).map (L.segmentStart recvcounts)) mem (L.cluster r)) := by
    intro mem
    have hread : ¬ t.pk.Sendable (mem.read (L.segmentStart recvcounts (L.cluster r))
        (L.segmentSize recvcounts (L.cluster r))).length := by
      rwa [Memory.length_read]
    obtain ⟨hsent, hsuccess⟩ := messagingBcast_failed (p := p) (c := c) hclusters hread
    rw [exchangeSegment, h.coordinators _ hcluster, List.getElem?_map, List.getElem?_map,
      List.getElem?_range hcluster, h.globalRank]
    show Doomed (if L.coordinator (L.cluster r) = r then _ else _)
    rw [if_pos (show r = L.coordinator (L.cluster r) from hr).symm, bcastTo, hsent,
      hsuccess]
    exact .fail
  have hfresh : (if t.Holds (L.total recvcounts) then some fresh else none) = some fresh :=
    if_pos htotal.2
  rw [allgatherv, getCountSums_eq h htotal.1, h.myCoordinator, h.globalRank]
  simp only [Proc.ofOption_some_bind, hfresh]
  rw [if_pos (show r = L.coordinator (L.cluster r) from hr)]
  refine Doomed.bind (Doomed.of_bind _ fun offset => Doomed.of_bind _ fun gathered => ?_) _
  rw [h.clusterCount]
  exact Doomed.foldlM (List.mem_range.mpr hcluster) hround _

/-- Each block of what the member `r` ends with, as it is in the final buffer. -/
theorem read_result {displs : Nat → Nat → Nat} (recvbuf : Nat → Memory α)
    (hdisjoint : L.Disjoint recvcounts (displs r)) (hi : i < L.size) :
    (L.result recvcounts sendbuf fresh recvbuf displs r).read (displs r i) (recvcounts i) =
      (L.finalBuffer recvcounts sendbuf fresh r).read (L.blockStart recvcounts i)
        (recvcounts i) :=
  read_copied hdisjoint _ _ hi (Nat.le_refl _)

end Parts

end Layout

section Call

variable {α : Type}

/-- What a call of `EMPI_Allgatherv` is for: in every run each member that returns
has in block `i` what rank `i` sent, and every run can be completed. -/
def Gathers {n : Nat} (procs : Fin n → Member α (Memory α)) (recvcounts : Nat → Nat)
    (displs : Nat → Nat → Nat) (sendbuf : Nat → List α) : Prop :=
  ∀ state, Relation.ReflTransGen Step (start procs) state →
    (∀ r a, state.procs r = .done a →
      ∀ i < n, a.read (displs r i) (recvcounts i) = sendbuf i) ∧
    ∃ state', Relation.ReflTransGen Step state state' ∧ ∀ r, ∃ a, state'.procs r = .done a

/-- Under a plan, a call gathers exactly when the results of the plan do. -/
theorem gathers_iff_result {m : Nat} {procs : Fin m → Member α (Memory α)}
    {recvcounts : Nat → Nat} {displs : Nat → Nat → Nat} {sendbuf : Nat → List α}
    {plan : Plan (Fin m) Link (Packet α) (Memory α)} (h : Inv plan plan.trace (start procs)) :
    Gathers procs recvcounts displs sendbuf ↔
      ∀ r, ∀ i < m, (plan.result r).read (displs r i) (recvcounts i) = sendbuf i := by
  constructor
  · intro hgathers r i hi
    obtain ⟨_, hcomplete⟩ := hgathers _ .refl
    obtain ⟨state, hrun, hdone⟩ := hcomplete
    obtain ⟨a, ha⟩ := hdone r
    obtain ⟨left, hinv⟩ := inv_of_reachable h hrun
    rw [← result_of_done hinv ha]
    exact (hgathers _ hrun).1 r a ha i hi
  · intro hresult state hrun
    obtain ⟨left, hinv⟩ := inv_of_reachable h hrun
    constructor
    · intro r a ha i hi
      rw [result_of_done hinv ha]
      exact hresult r i hi
    · obtain ⟨state', hrun', hdone⟩ := completes hinv
      exact ⟨state', hrun', fun r => ⟨_, hdone r⟩⟩

/-- A call does not gather if a member does not get through. -/
theorem not_gathers_of_doomed {m : Nat} {procs : Fin m → Member α (Memory α)} {r : Fin m}
    (hr : Doomed (procs r)) (recvcounts : Nat → Nat) (displs : Nat → Nat → Nat)
    (sendbuf : Nat → List α) : ¬ Gathers procs recvcounts displs sendbuf := by
  intro h
  obtain ⟨_, state, hrun, hdone⟩ := h _ .refl
  obtain ⟨a, ha⟩ := hdone r
  have hdoomed := Doomed.of_steps hrun hr
  rw [ha] at hdoomed
  cases hdoomed

variable (t : ElementType α) (clusterCount : Nat) (n : Nat) (members : List Pid)
  (recvcounts : Nat → Nat) (displs : Nat → Nat → Nat)

/-- The call of `EMPI_Allgatherv` on communicator `n` by its members. -/
def System.allgatherv (s : System) (sendbuf : Nat → List α) (recvbuf fresh : Nat → Memory α)
    (r : Fin members.length) : Member α (Memory α) :=
  match s.processes (members.get r) with
  | none => .fail
  | some p =>
    match p.comms n with
    | none => .fail
    | some c =>
      EsalsaMpi.allgatherv t clusterCount p c recvcounts (sendbuf r) (recvbuf r) (fresh r)
        (displs r)

/-- The call gathers whatever the members send, and whatever is in their
memory. -/
def System.Allgathers (s : System) : Prop :=
  ∀ (sendbuf : Nat → List α) (recvbuf fresh : Nat → Memory α),
    (∀ i < members.length, (sendbuf i).length = recvcounts i) →
      Gathers (s.allgatherv t clusterCount n members recvcounts displs sendbuf recvbuf
        fresh) recvcounts displs sendbuf

/-- Every member that sends anything stands before the members of later
clusters. -/
def Ordered : Prop :=
  ∀ (i j : Nat) pid pid', members[i]? = some pid → members[j]? = some pid' → j < i →
    0 < recvcounts i → getClusterRank pid' ≤ getClusterRank pid

/-- The blocks of a receive buffer do not overlap. -/
def BlocksDisjoint (displs : Nat → Nat) : Prop :=
  ∀ i < members.length, ∀ j < members.length, i ≠ j → ∀ t < recvcounts i, ∀ u < recvcounts j,
    displs i + t ≠ displs j + u

/-- The counts fit: all elements together are an `int` and in a buffer of this size, and what
the members of each cluster send together fits into a message. -/
structure CountsFit : Prop where
  total : ∑ i ∈ Finset.range members.length, recvcounts i < 2 ^ 31
  holds : t.Holds (∑ i ∈ Finset.range members.length, recvcounts i)
  sendable : ∀ k < clusterCount, t.pk.Sendable
    (∑ i ∈ Finset.range members.length,
      if (clustersOf members).getD i 0 = k then recvcounts i else 0)

variable {t clusterCount n members recvcounts displs}

/-- Members are ordered when only empty blocks are filed under another cluster. -/
theorem ordered_iff (hranks : (clustersOf members).eraseDups = List.range clusterCount) :
    Ordered members recvcounts ↔ ∀ i < members.length,
      (Layout.ofMembers members clusterCount hranks).index i ≠
        (Layout.ofMembers members clusterCount hranks).cluster i → recvcounts i = 0 := by
  have hcluster : ∀ {i : Nat} {pid : Pid}, members[i]? = some pid →
      (clustersOf members).getD i 0 = getClusterRank pid := by
    intro i pid hpid
    rw [List.getD_eq_getElem?_getD, getElem?_clustersOf, hpid]
    rfl
  constructor
  · intro h i hi hne
    by_contra hcount
    apply hne
    rw [Layout.index_eq_cluster_iff hranks hi]
    intro j hj
    have hpid := List.getElem?_eq_getElem hi
    have hpid' := List.getElem?_eq_getElem (Nat.lt_trans hj hi)
    rw [hcluster hpid, hcluster hpid']
    exact h i j _ _ hpid hpid' hj (Nat.pos_of_ne_zero hcount)
  · intro h i j pid pid' hpid hpid' hji hcount
    have hi := (List.getElem?_eq_some_iff.mp hpid).1
    have hindex := not_imp_comm.mp (h i hi) (by omega)
    have hle := (Layout.index_eq_cluster_iff hranks hi).mp hindex j hji
    rwa [hcluster hpid, hcluster hpid'] at hle

theorem System.allgatherv_eq {s : System} {sendbuf : Nat → List α}
    {recvbuf fresh : Nat → Memory α} {r : Fin members.length} {p : Process} {c : Communicator}
    (hp : s.processes (members.get r) = some p) (hc : p.comms n = some c) :
    s.allgatherv t clusterCount n members recvcounts displs sendbuf recvbuf fresh r =
      EsalsaMpi.allgatherv t clusterCount p c recvcounts (sendbuf r) (recvbuf r) (fresh r)
        (displs r) := by
  simp only [System.allgatherv, hp, hc]

/-- Where only empty blocks are filed under another cluster, the segments are what the clusters
send. -/
theorem countsFit_iff (hranks : (clustersOf members).eraseDups = List.range clusterCount)
    (hordered : Ordered members recvcounts) :
    CountsFit t clusterCount members recvcounts ↔
      (Layout.ofMembers members clusterCount hranks).CountsFit t recvcounts := by
  have hsegment : ∀ k, (Layout.ofMembers members clusterCount hranks).segmentSize recvcounts k =
      ∑ i ∈ Finset.range members.length,
        if (clustersOf members).getD i 0 = k then recvcounts i else 0 :=
    fun k => filed_congr ((ordered_iff hranks).mp hordered) k
  constructor
  · intro ⟨htotal, hholds, hsend⟩
    exact ⟨htotal, hholds, fun k hk => (hsegment k).symm ▸ hsend k hk⟩
  · intro ⟨htotal, hholds, hsend⟩
    exact ⟨htotal, hholds, fun k hk => hsegment k ▸ hsend k hk⟩

/-- What each member knows of a communicator whose members are running. -/
theorem exists_shows {cfg : Server.Config} {order : Server.HashOrder} {s : System}
    {sc : Server.Communicator} (hreach : System.Reachable cfg order s)
    (hsc : s.server[n]? = some (some sc))
    (hrunning : ∀ pid ∈ sc.tables.members, (s.processes pid).isSome)
    (hranks : (clustersOf sc.tables.members).eraseDups = List.range cfg.numberOfClusters) :
    ∃ (P : Nat → Process) (C : Nat → Communicator), ∀ r, ∀ hr : r < sc.tables.members.length,
      s.processes sc.tables.members[r] = some (P r) ∧ (P r).comms n = some (C r) ∧
        (Layout.ofMembers sc.tables.members cfg.numberOfClusters hranks).Shows n r (P r)
          (C r) := by
  have hinv := System.inv_of_reachable hreach
  obtain ⟨members, hvalid, hsc'⟩ := hinv.communicator n sc hsc
  have hmembers : sc.tables.members = members := by
    rw [hsc']
    rfl
  have hmember : ∀ r, ∃ p c, ∀ hr : r < sc.tables.members.length,
      s.processes sc.tables.members[r] = some p ∧ p.comms n = some c ∧
        (Layout.ofMembers sc.tables.members cfg.numberOfClusters hranks).Shows n r p c := by
    intro r
    by_cases hr : r < sc.tables.members.length
    · have hmem := List.getElem_mem hr
      obtain ⟨p, hp⟩ := Option.isSome_iff_exists.mp (hrunning _ hmem)
      obtain ⟨c, hc, hmirrors⟩ := hinv.mirror _ p hp n sc hsc hmem
      have hpid := (hinv.process _ p hp).1
      have hrank : c.globalRank = r := by
        have hlt := (List.getElem?_eq_some_iff.mp hmirrors.globalRank).1
        have hnodup : sc.tables.members.Nodup := hmembers ▸ hvalid.nodup
        exact (List.getElem?_inj hlt hnodup).mp
          (hmirrors.globalRank.trans (List.getElem?_eq_getElem hr).symm)
      have hshows := Layout.shows_of_mirrors hranks (hpid.symm ▸ hmirrors)
      rw [hrank] at hshows
      exact ⟨p, c, fun _ => ⟨hp, hc, hshows⟩⟩
    · exact ⟨⟨0, fun _ => none⟩, nullCommunicator, fun hlt => absurd hlt hr⟩
  choose P C hmember using hmember
  exact ⟨P, C, hmember⟩

/-- **The plan of a call** on a communicator of a run, whose members are running. -/
theorem exists_plan {cfg : Server.Config} {order : Server.HashOrder} {s : System}
    {sc : Server.Communicator} (hpk : t.pk.Lawful) (hreach : System.Reachable cfg order s)
    (hsc : s.server[n]? = some (some sc))
    (hrunning : ∀ pid ∈ sc.tables.members, (s.processes pid).isSome)
    (hranks : (clustersOf sc.tables.members).eraseDups = List.range cfg.numberOfClusters)
    (hfits : (Layout.ofMembers sc.tables.members cfg.numberOfClusters hranks).CountsFit t
      recvcounts) {sendbuf : Nat → List α} (recvbuf fresh : Nat → Memory α)
    (hlength : ∀ i < sc.tables.members.length, (sendbuf i).length = recvcounts i)
    (displs : Nat → Nat → Nat) :
    ∃ plan : Plan (Fin sc.tables.members.length) Link (Packet α) (Memory α),
      Inv plan plan.trace (start (s.allgatherv t cfg.numberOfClusters n sc.tables.members
        recvcounts displs sendbuf recvbuf fresh)) ∧
      ∀ r, plan.result r = (Layout.ofMembers sc.tables.members cfg.numberOfClusters hranks).result
        recvcounts sendbuf fresh recvbuf displs r := by
  obtain ⟨P, C, hmember⟩ := exists_shows hreach hsc hrunning hranks
  let L := Layout.ofMembers sc.tables.members cfg.numberOfClusters hranks
  have hshows : ∀ r < L.size, L.Shows n r (P r) (C r) := fun r hr => (hmember r hr).2.2
  have hsize : 0 < L.size :=
    Nat.zero_lt_of_lt (L.coordinator_lt 0 (Nat.zero_lt_of_lt cfg.one_lt_clusters))
  have hfollows : ∀ r : Fin sc.tables.members.length,
      Follows (s.allgatherv t cfg.numberOfClusters n sc.tables.members recvcounts displs
          sendbuf recvbuf fresh r)
        (L.trace sendbuf (L.message t.pk P C (L.segment recvcounts sendbuf fresh))
          (L.whole recvcounts sendbuf fresh) r)
        (L.result recvcounts sendbuf fresh recvbuf displs r) := by
    intro r
    obtain ⟨hp, hc, _⟩ := hmember r r.isLt
    rw [System.allgatherv_eq hp hc]
    exact Layout.follows_allgatherv hpk hfits hshows hlength recvbuf displs r.isLt
  exact ⟨L.plan hsize sendbuf (L.message t.pk P C (L.segment recvcounts sendbuf fresh))
    (L.whole recvcounts sendbuf fresh) (L.result recvcounts sendbuf fresh recvbuf displs),
    inv_start (L.sound_plan hsize) hfollows, fun r => rfl⟩

section Exact

variable {cfg : Server.Config} {order : Server.HashOrder} {s : System} {sc : Server.Communicator}

/-- A call gathers where only empty blocks are filed under another cluster. -/
theorem allgathers_of_ordered (hpk : t.pk.Lawful) (hreach : System.Reachable cfg order s)
    (hsc : s.server[n]? = some (some sc))
    (hrunning : ∀ pid ∈ sc.tables.members, (s.processes pid).isSome)
    (hranks : (clustersOf sc.tables.members).eraseDups = List.range cfg.numberOfClusters)
    (hdisjoint : ∀ r < sc.tables.members.length,
      BlocksDisjoint sc.tables.members recvcounts (displs r))
    (hordered : Ordered sc.tables.members recvcounts)
    (hfits : CountsFit t cfg.numberOfClusters sc.tables.members recvcounts) :
    s.Allgathers t cfg.numberOfClusters n sc.tables.members recvcounts displs := by
  intro sendbuf recvbuf fresh hlength
  obtain ⟨plan, hinv, hresult⟩ := exists_plan hpk hreach hsc hrunning hranks
    ((countsFit_iff hranks hordered).mp hfits) recvbuf fresh hlength displs
  rw [gathers_iff_result hinv]
  intro r i hi
  let L := Layout.ofMembers sc.tables.members cfg.numberOfClusters hranks
  have hdisjoint' : L.Disjoint recvcounts (displs r) := hdisjoint r r.isLt
  rw [hresult, Layout.read_result recvbuf hdisjoint' hi,
    Layout.read_block hlength ((ordered_iff hranks).mp hordered) (Layout.read_finalBuffer r) hi]

/-- **A call that gathers** has counts that fit: otherwise a member does not get through. -/
theorem countsFit_of_allgathers [Nontrivial α] (hreach : System.Reachable cfg order s)
    (hsc : s.server[n]? = some (some sc))
    (hrunning : ∀ pid ∈ sc.tables.members, (s.processes pid).isSome)
    (hranks : (clustersOf sc.tables.members).eraseDups = List.range cfg.numberOfClusters)
    (h : s.Allgathers t cfg.numberOfClusters n sc.tables.members recvcounts displs) :
    (Layout.ofMembers sc.tables.members cfg.numberOfClusters hranks).CountsFit t recvcounts := by
  obtain ⟨x, _⟩ := exists_pair_ne α
  obtain ⟨P, C, hmember⟩ := exists_shows hreach hsc hrunning hranks
  let L := Layout.ofMembers sc.tables.members cfg.numberOfClusters hranks
  have hall := h (fun i => List.replicate (recvcounts i) x) (fun _ _ => x) (fun _ _ => x)
    fun i _ => List.length_replicate
  have hgets : ∀ r, ∀ hr : r < sc.tables.members.length,
      ¬ Doomed (EsalsaMpi.allgatherv t cfg.numberOfClusters (P r) (C r) recvcounts
        (List.replicate (recvcounts r) x) (fun _ => x) (fun _ => x) (displs r)) := by
    intro r hr hdoomed
    have hcall := @System.allgatherv_eq _ t cfg.numberOfClusters n _ recvcounts displs s
      (fun i => List.replicate (recvcounts i) x) (fun _ _ => x) (fun _ _ => x) ⟨r, hr⟩ _ _
      (hmember r hr).1 (hmember r hr).2.1
    exact not_gathers_of_doomed (hcall.symm ▸ hdoomed) recvcounts displs _ hall
  have hclusters : 1 < cfg.numberOfClusters := cfg.one_lt_clusters
  have hcoordinator : ∀ k < L.clusters, L.coordinator k < L.size := fun k hk =>
    L.coordinator_lt k hk
  have htotal : L.total recvcounts < 2 ^ 31 ∧ t.Holds (L.total recvcounts) := by
    by_contra hfails
    have hr := hcoordinator 0 (Nat.zero_lt_of_lt hclusters)
    exact hgets _ hr (Layout.doomed_of_total (hmember _ hr).2.2 hfails _ _ _ _ _)
  refine ⟨htotal.1, htotal.2, fun k hk => ?_⟩
  by_contra hsend
  have hr := hcoordinator k hk
  rw [← L.cluster_coordinator k hk] at hsend
  exact hgets _ hr (Layout.doomed_of_sendable (hmember _ hr).2.2
    (Layout.isCoordinator_coordinator hk) htotal hclusters hsend _ _ _ _)

/-- A call that gathers whatever is sent files only empty blocks under another
cluster: a block that is not empty would be read from data of others. -/
theorem ordered_of_allgathers [Nontrivial α] (hpk : t.pk.Lawful)
    (hreach : System.Reachable cfg order s) (hsc : s.server[n]? = some (some sc))
    (hrunning : ∀ pid ∈ sc.tables.members, (s.processes pid).isSome)
    (hranks : (clustersOf sc.tables.members).eraseDups = List.range cfg.numberOfClusters)
    (hdisjoint : ∀ r < sc.tables.members.length,
      BlocksDisjoint sc.tables.members recvcounts (displs r))
    (h : s.Allgathers t cfg.numberOfClusters n sc.tables.members recvcounts displs) :
    Ordered sc.tables.members recvcounts := by
  rw [ordered_iff hranks]
  intro i hi hindex
  by_contra hcount
  obtain ⟨x, y, hxy⟩ := exists_pair_ne α
  -- member `i` sends `x` only, the others send `y`, and fresh memory holds `y`
  let sendbuf : Nat → List α := fun j => List.replicate (recvcounts j) (if j = i then x else y)
  let fresh : Nat → Memory α := fun _ _ => y
  have hlength : ∀ j < sc.tables.members.length, (sendbuf j).length = recvcounts j :=
    fun j _ => List.length_replicate
  obtain ⟨plan, hinv, hresult⟩ := exists_plan hpk hreach hsc hrunning hranks
    (countsFit_of_allgathers hreach hsc hrunning hranks h) fresh fresh hlength displs
  have hblock := (gathers_iff_result hinv).mp (h sendbuf fresh fresh hlength) ⟨i, hi⟩ i hi
  let L := Layout.ofMembers sc.tables.members cfg.numberOfClusters hranks
  have hdisjoint' : L.Disjoint recvcounts (displs i) := hdisjoint i hi
  rw [hresult, Layout.read_result fresh hdisjoint' hi] at hblock
  have hx : x ∈ sendbuf i := by simp [sendbuf, hcount]
  rw [← hblock] at hx
  rcases Layout.mem_read_block (Layout.read_finalBuffer i) hi hindex hx with
    ⟨j, hj, hmem⟩ | ⟨r, t, heq⟩
  · have hy := List.eq_of_mem_replicate hmem
    rw [if_neg hj] at hy
    exact hxy hy
  · exact hxy heq

/-- **When `EMPI_Allgatherv` gathers.**  On every communicator of a run that lists
all clusters in order, and for all counts and blocks that do not overlap:
exactly when no member that sends anything comes behind a member of a later
cluster, and the counts fit. -/
theorem allgathers_iff [Nontrivial α] (hpk : t.pk.Lawful)
    (hreach : System.Reachable cfg order s) (hsc : s.server[n]? = some (some sc))
    (hrunning : ∀ pid ∈ sc.tables.members, (s.processes pid).isSome)
    (hranks : sc.tables.clusterRanks = List.range cfg.numberOfClusters)
    (hdisjoint : ∀ r < sc.tables.members.length,
      BlocksDisjoint sc.tables.members recvcounts (displs r)) :
    s.Allgathers t cfg.numberOfClusters n sc.tables.members recvcounts displs ↔
      Ordered sc.tables.members recvcounts ∧
        CountsFit t cfg.numberOfClusters sc.tables.members recvcounts := by
  have hranks' : (clustersOf sc.tables.members).eraseDups =
      List.range cfg.numberOfClusters := by
    obtain ⟨members, _, hsc'⟩ := (System.inv_of_reachable hreach).communicator n sc hsc
    rw [hsc'] at hranks ⊢
    exact hranks
  constructor
  · intro h
    have hordered := ordered_of_allgathers hpk hreach hsc hrunning hranks' hdisjoint h
    exact ⟨hordered, (countsFit_iff hranks' hordered).mpr
      (countsFit_of_allgathers hreach hsc hrunning hranks' h)⟩
  · intro ⟨hordered, hfits⟩
    exact allgathers_of_ordered hpk hreach hsc hrunning hranks' hdisjoint hordered hfits

/-- One element from each, put down in the order of the members. -/
theorem blocksDisjoint_one (members : List Pid) :
    BlocksDisjoint members (fun _ => 1) fun i => i := by
  intro i _ j _ hij t ht u hu
  simp only at ht hu ⊢
  omega

/-- In a fresh world the members are in the order of their clusters. -/
theorem allgathers_pair :
    (System.start .pair System.pairServer).Allgathers byteType 2 0
      (Server.worldMembers .pair) (fun _ => 1) fun _ i => i := by
  have hreach : System.Reachable .pair .insertion (System.start .pair System.pairServer) :=
    ⟨System.pairServer, Server.initCommWorld_eq .pair, Relation.ReflTransGen.refl⟩
  have hordered : Ordered (Server.worldMembers .pair) fun _ => 1 := by
    have hlast : ∀ i j : Fin 2, j < i → getClusterRank ((Server.worldMembers .pair).getD j 0) ≤
        getClusterRank ((Server.worldMembers .pair).getD i 0) := by
      decide
    intro i j pid pid' hpid hpid' hji _
    have hi : i < 2 := (List.getElem?_eq_some_iff.mp hpid).1
    have hle := hlast ⟨i, hi⟩ ⟨j, Nat.lt_trans hji hi⟩ hji
    simpa [List.getD_eq_getElem?_getD, hpid, hpid'] using hle
  have hworld : (System.start .pair System.pairServer).server[0]? = some (some
      (Server.Communicator.fresh 0 (Server.tablesSpec (Server.worldMembers .pair)))) := rfl
  have hrunning := System.running_pair
  have hfits : CountsFit byteType 2 (Server.worldMembers .pair) fun _ => 1 :=
    ⟨by decide, by decide, by decide⟩
  exact (allgathers_iff bytePacking_lawful hreach hworld hrunning (by decide)
    fun _ _ => blocksDisjoint_one _).mpr ⟨hordered, hfits⟩

end Exact

section Interleaved

/-- Two processes in cluster 0 and one in cluster 1. -/
def Server.Config.triple : Server.Config where
  applicationSizes := [2, 1]
  numberOfGatewaysPerCluster := 1
  one_lt_clusters := by decide
  clusters_lt := by decide
  gateways_pos := Nat.one_pos
  size_pos := by decide
  size_le := by decide

/-- The members of communicator 3 after `System.interleave`. -/
def interleavedMembers : List Pid := [setPid 0 0, setPid 1 0, setPid 0 1]

namespace System

/-- A split of the world that puts the process of cluster 1 between the two of
cluster 0. -/
def interleave : Collective :=
  .split (fun _ => 0) fun pid => getClusterRank pid + 2 * getProcessRank pid

/-- The server of `Config.triple` at the start. -/
def tripleServer : Server.State :=
  [some (Server.Communicator.fresh 0 (Server.tablesSpec (Server.worldMembers .triple))),
    none, none]

/-- The processes of `Config.triple` after the split `interleave` of their
world. -/
def interleaved : System :=
  (start .triple tripleServer).after .triple .insertion 0 interleave
    (Server.worldMembers .triple) (interleave.row 0 (Server.worldMembers .triple))

theorem reachable_interleaved : Reachable .triple .insertion interleaved := by
  refine ⟨tripleServer, Server.initCommWorld_eq .triple, Relation.ReflTransGen.single ?_⟩
  have hsent : (start .triple tripleServer).requests 0 interleave (Server.worldMembers .triple) =
      some (interleave.row 0 (Server.worldMembers .triple)) := by
    decide
  exact @Step.collective .triple .insertion (start .triple tripleServer) 0 interleave _ _ _ rfl
    trivial hsent (List.Perm.refl _)

end System

/-- With a member of cluster 1 between two of cluster 0, one element from each
member does not arrive: the last block is read from the segment of cluster 1. -/
theorem not_allgathers_interleaved :
    System.Reachable .triple .insertion System.interleaved ∧
      (Server.tablesSpec interleavedMembers).clusterRanks = List.range 2 ∧
        ¬ System.interleaved.Allgathers byteType 2 3 interleavedMembers (fun _ => 1)
          fun _ i => i := by
  refine ⟨System.reachable_interleaved, by decide, ?_⟩
  intro hgathers
  have hlive : System.interleaved.server[3]? = some (some (Server.Communicator.fresh 3
      (Server.tablesSpec interleavedMembers))) := by
    decide
  have hrunning : ∀ pid ∈ interleavedMembers, (System.interleaved.processes pid).isSome :=
    List.all_eq_true.mp (by decide)
  have hordered := ordered_of_allgathers bytePacking_lawful System.reachable_interleaved hlive
    hrunning (by decide) (fun _ _ => blocksDisjoint_one _) hgathers
  have hle := hordered 2 1 _ _ rfl rfl (by decide) (by decide)
  revert hle
  decide

end Interleaved

end Call

end EsalsaMpi
