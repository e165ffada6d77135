import EsalsaMpi.Backend.Allgatherv.Layout
import EsalsaMpi.Library.Blocks
import EsalsaMpi.Library.Memory

/-!
# What is in the buffers of `EMPI_Allgatherv`

The coordinator of cluster `k` writes the data of its cluster to the place of
segment `k` (`gathered`), and the coordinators exchange the segments
(`exchanged`), so in the end every buffer reads as `whole`.  From it the
blocks are copied to the receive buffer (`copied`).

A segment is as long as the blocks filed under its cluster, but holds the data
of the members in it.  Where only empty blocks are filed under another cluster,
each block is read as it was sent (`read_block`); any other block that is filed
under another cluster is read from data of other members
(`mem_read_block`).
-/

namespace EsalsaMpi

open Blocks

namespace Layout

variable {α : Type} (L : Layout) (recvcounts : Nat → Nat)

/-- The elements of all members. -/
def total : Nat := ∑ i ∈ Finset.range L.size, recvcounts i

/-- The length of a segment. -/
def segmentSize (k : Nat) : Nat := filed L.index recvcounts L.size k

/-- Where a segment begins. -/
def segmentStart (k : Nat) : Nat := Blocks.offset L.index recvcounts L.size k

/-- Where block `i` is read. -/
def blockStart (i : Nat) : Nat :=
  L.segmentStart recvcounts (L.index i) + filed L.index recvcounts i (L.index i)

variable (sendbuf : Nat → List α) (fresh : Nat → Memory α)

/-- The buffer of the coordinator of cluster `k` with the data of its members
below `i`. -/
def gathered (k i : Nat) : Memory α :=
  (fresh (L.coordinator k)).write (L.segmentStart recvcounts k) (filedData L.cluster sendbuf i k)

/-- What the coordinator of cluster `k` sends to the others. -/
def segment (k : Nat) : List α :=
  (L.gathered recvcounts sendbuf fresh k L.size).read (L.segmentStart recvcounts k)
    (L.segmentSize recvcounts k)

/-- The buffer of the coordinator of cluster `k` when the segments below `i` have
been exchanged. -/
def exchanged (k : Nat) : Nat → Memory α
  | 0 => L.gathered recvcounts sendbuf fresh k L.size
  | i + 1 =>
    if i = k then
      exchanged k i
    else
      (exchanged k i).write (L.segmentStart recvcounts i) (L.segment recvcounts sendbuf fresh i)

/-- All segments. -/
def whole : List α := (List.range L.clusters).flatMap (L.segment recvcounts sendbuf fresh)

/-- The receive buffer with the blocks below `i` copied from `buffer`. -/
def copied (buffer recvbuf : Memory α) (displs : Nat → Nat) : Nat → Memory α
  | 0 => recvbuf
  | i + 1 => (copied buffer recvbuf displs i).write (displs i)
      (buffer.read (L.blockStart recvcounts i) (recvcounts i))

variable {recvcounts sendbuf fresh} {L}

theorem total_eq : L.segmentStart recvcounts L.clusters = L.total recvcounts :=
  offset_eq_sum recvcounts L.index_lt

theorem segmentStart_add_le {k m : Nat} (h : k < m) :
    L.segmentStart recvcounts k + L.segmentSize recvcounts k ≤ L.segmentStart recvcounts m :=
  offset_add_filed_le L.index recvcounts L.size h

/-- The data of a cluster fits into the buffer behind the start of its segment. -/
theorem segmentStart_add_filed_le (k : Nat) :
    L.segmentStart recvcounts k + filed L.cluster recvcounts L.size k ≤ L.total recvcounts :=
  offset_add_filed_le_sum recvcounts L.cluster_le_index k

/-- A block lies in the segment it is filed under. -/
theorem blockStart_add_le {i : Nat} (hi : i < L.size) :
    filed L.index recvcounts i (L.index i) + recvcounts i ≤
      L.segmentSize recvcounts (L.index i) :=
  filed_add_le recvcounts hi rfl

theorem blockStart_add_le_total {i : Nat} (hi : i < L.size) :
    L.blockStart recvcounts i + recvcounts i ≤ L.total recvcounts := by
  have hblock := @blockStart_add_le L recvcounts i hi
  have hsegment := @segmentStart_add_le L recvcounts _ _ (L.index_lt i hi)
  rw [← total_eq, blockStart]
  omega

@[simp] theorem length_segment (k : Nat) :
    (L.segment recvcounts sendbuf fresh k).length = L.segmentSize recvcounts k :=
  Memory.length_read _ _ _

/-- A write of another segment does not touch segment `m`. -/
theorem read_write_segment (mem : Memory α) {k m : Nat} (hne : k ≠ m) :
    (mem.write (L.segmentStart recvcounts k) (L.segment recvcounts sendbuf fresh k)).read
        (L.segmentStart recvcounts m) (L.segmentSize recvcounts m) =
      mem.read (L.segmentStart recvcounts m) (L.segmentSize recvcounts m) := by
  apply Memory.read_write_of_disjoint
  intro t ht
  rw [length_segment]
  rcases Nat.lt_or_gt_of_ne hne with hlt | hgt
  · have := @segmentStart_add_le L recvcounts _ _ hlt
    omega
  · have := @segmentStart_add_le L recvcounts _ _ hgt
    omega

/-- **One buffer in the exchange**: its own segment and those received so far. -/
theorem read_exchanged (k : Nat) {i m : Nat} (hm : m < i ∨ m = k) :
    (L.exchanged recvcounts sendbuf fresh k i).read (L.segmentStart recvcounts m)
        (L.segmentSize recvcounts m) = L.segment recvcounts sendbuf fresh m := by
  induction i with
  | zero =>
      have hmk : m = k := by omega
      subst hmk
      rfl
  | succ i ih =>
      rw [exchanged]
      split
      · exact ih (by omega)
      · by_cases him : i = m
        · subst him
          have hlength : (L.segment recvcounts sendbuf fresh i).length =
              L.segmentSize recvcounts i := length_segment i
          conv_lhs => rw [← hlength]
          exact Memory.read_write _ _ _
        · rw [read_write_segment _ him]
          exact ih (by omega)

/-- A buffer that reads as all segments has each of them in its place. -/
theorem read_eq_whole_iff (buffer : Memory α) (n : Nat) :
    buffer.read 0 (L.segmentStart recvcounts n) =
        (List.range n).flatMap (L.segment recvcounts sendbuf fresh) ↔
      ∀ m < n, buffer.read (L.segmentStart recvcounts m) (L.segmentSize recvcounts m) =
        L.segment recvcounts sendbuf fresh m := by
  induction n with
  | zero => simp [segmentStart, Memory.read]
  | succ n ih =>
      have hstart : L.segmentStart recvcounts (n + 1) =
          L.segmentStart recvcounts n + L.segmentSize recvcounts n :=
        offset_succ L.index recvcounts L.size n
      rw [hstart, Memory.read_add, Nat.zero_add, List.range_succ, List.flatMap_append,
        List.flatMap_singleton]
      constructor
      · intro h m hm
        obtain ⟨hbefore, hlast⟩ := List.append_inj' h (by simp)
        rcases Nat.lt_succ_iff_lt_or_eq.mp hm with hlt | rfl
        · exact ih.mp hbefore m hlt
        · exact hlast
      · intro h
        rw [ih.mpr fun m hm => h m (Nat.lt_succ_of_lt hm), h n (Nat.lt_succ_self n)]

/-- **After the exchange** the coordinators have the same buffer. -/
theorem read_exchanged_whole (k : Nat) :
    (L.exchanged recvcounts sendbuf fresh k L.clusters).read 0 (L.total recvcounts) =
      L.whole recvcounts sendbuf fresh := by
  rw [← total_eq, whole, read_eq_whole_iff]
  intro m hm
  exact read_exchanged k (Or.inl hm)

/-- Block `i`, as it is read from the segment it is filed under. -/
theorem read_block_eq {buffer : Memory α}
    (hbuffer : buffer.read 0 (L.total recvcounts) = L.whole recvcounts sendbuf fresh)
    {i : Nat} (hi : i < L.size) :
    buffer.read (L.blockStart recvcounts i) (recvcounts i) =
      ((L.segment recvcounts sendbuf fresh (L.index i)).drop
        (filed L.index recvcounts i (L.index i))).take (recvcounts i) := by
  rw [← total_eq, whole, read_eq_whole_iff] at hbuffer
  rw [← hbuffer (L.index i) (L.index_lt i hi)]
  exact Memory.read_read _ _ (blockStart_add_le hi)

/-- A segment is the data of its cluster where only empty blocks are filed under
another cluster. -/
theorem segment_eq (hlength : ∀ i < L.size, (sendbuf i).length = recvcounts i)
    (hfiled : ∀ i < L.size, L.index i ≠ L.cluster i → recvcounts i = 0) (k : Nat) :
    L.segment recvcounts sendbuf fresh k = filedData L.cluster sendbuf L.size k := by
  have hsize : L.segmentSize recvcounts k = (filedData L.cluster sendbuf L.size k).length := by
    rw [length_filedData hlength, segmentSize, filed_congr hfiled]
  rw [segment, gathered, hsize, Memory.read_write]

/-- **Each block is read as it was sent.** -/
theorem read_block (hlength : ∀ i < L.size, (sendbuf i).length = recvcounts i)
    (hfiled : ∀ i < L.size, L.index i ≠ L.cluster i → recvcounts i = 0) {buffer : Memory α}
    (hbuffer : buffer.read 0 (L.total recvcounts) = L.whole recvcounts sendbuf fresh)
    {i : Nat} (hi : i < L.size) :
    buffer.read (L.blockStart recvcounts i) (recvcounts i) = sendbuf i := by
  by_cases hindex : L.index i = L.cluster i
  · obtain ⟨rest, hrest⟩ := exists_filedData_eq sendbuf hi hindex.symm
    have hbefore : filed L.index recvcounts i (L.index i) =
        (filedData L.cluster sendbuf i (L.index i)).length := by
      rw [length_filedData fun j hj => hlength j (by omega),
        filed_congr fun j hj => hfiled j (by omega)]
    rw [read_block_eq hbuffer hi, segment_eq hlength hfiled, hrest, hbefore, List.append_assoc,
      List.drop_left, ← hlength i hi, List.take_left]
  · have hempty := hfiled i hi hindex
    have hnil : sendbuf i = [] := List.length_eq_zero_iff.mp ((hlength i hi).trans hempty)
    rw [hempty, hnil]
    rfl

/-- **A block that is filed under another cluster** is read from what other
members sent and from memory that nothing was written to. -/
theorem mem_read_block {buffer : Memory α}
    (hbuffer : buffer.read 0 (L.total recvcounts) = L.whole recvcounts sendbuf fresh)
    {i : Nat} (hi : i < L.size) (hindex : L.index i ≠ L.cluster i) {x : α}
    (hx : x ∈ buffer.read (L.blockStart recvcounts i) (recvcounts i)) :
    (∃ j ≠ i, x ∈ sendbuf j) ∨ ∃ r t, x = fresh r t := by
  rw [read_block_eq hbuffer hi] at hx
  obtain ⟨t, ht, rfl⟩ := Memory.mem_read (List.mem_of_mem_drop (List.mem_of_mem_take hx))
  rcases Nat.lt_or_ge t (filedData L.cluster sendbuf L.size (L.index i)).length with hlt | hge
  · left
    obtain ⟨j, hj, hcluster, hdata⟩ := exists_of_mem_filedData (List.getElem_mem hlt)
    refine ⟨j, ?_, ?_⟩
    · rintro rfl
      exact hindex hcluster.symm
    · rw [gathered, Memory.write_add hlt]
      exact hdata
  · right
    exact ⟨_, _, Memory.write_of_disjoint (Or.inr (by omega))⟩

/-- The blocks that `displs` puts into the receive buffer do not overlap. -/
def Disjoint (L : Layout) (recvcounts displs : Nat → Nat) : Prop :=
  ∀ i < L.size, ∀ j < L.size, i ≠ j → ∀ t < recvcounts i, ∀ u < recvcounts j,
    displs i + t ≠ displs j + u

/-- **What is copied** stays in the receive buffer. -/
theorem read_copied {displs : Nat → Nat} (hdisjoint : L.Disjoint recvcounts displs)
    (buffer recvbuf : Memory α) {i n : Nat} (hi : i < n) (hn : n ≤ L.size) :
    (L.copied recvcounts buffer recvbuf displs n).read (displs i) (recvcounts i) =
      buffer.read (L.blockStart recvcounts i) (recvcounts i) := by
  induction n with
  | zero => cases hi
  | succ n ih =>
      rw [copied]
      by_cases hin : i = n
      · subst hin
        have hread := Memory.read_write (L.copied recvcounts buffer recvbuf displs i) (displs i)
          (buffer.read (L.blockStart recvcounts i) (recvcounts i))
        rwa [Memory.length_read] at hread
      · rw [Memory.read_write_of_disjoint]
        · exact ih (by omega) (by omega)
        · intro t ht
          rw [Memory.length_read]
          by_contra hinside
          have hoverlap := hdisjoint i (by omega) n (by omega) hin t ht
            (displs i + t - displs n) (by omega)
          omega

end Layout

end EsalsaMpi
