import EsalsaMpi.Backend.Member.Transfers

/-!
# Sending and receiving with datatypes

`do_send` and `do_recv` take the bytes of elements from one memory to another.  The calls
that gather receive a block from each other rank, where they copy the own one with
`memcpy`: all blocks get where they are to be if and only if the own one has the same
places on both sides (`load_collected_iff`, `collected_eq_iff`).

Elements for another cluster are packed into a message, so they have to fit into one
(`Datatype.Sendable`).
-/

namespace EsalsaMpi

open ProcessNetwork Placement

namespace Empi

variable (packing : List Basic → Packing UInt8) (p : Process) (c : Communicator)

/-- `do_send` of elements of a datatype, from a place on in memory.  The packing of a
message depends on its basic types.  The count in the header of the message, which
nobody reads, is here that of the bytes. -/
def sendData (mem : Int → UInt8) (start : Int) (count : Nat) (t : Datatype) (dest : Nat)
    (tag : Int) : Caller UInt8 Unit :=
  doSend (packing (t.signature count)) p c (load mem (t.places start count)) dest tag

/-- `do_recv` of elements of a datatype, to a place on in memory: the memory then. -/
def recvData (mem : Int → UInt8) (start : Int) (count : Nat) (t : Datatype) (source : Nat)
    (tag : Int) : Caller UInt8 (Int → UInt8) := do
  let bytes ← doRecv (packing (t.signature count)) t.handle p c
    (load mem (t.places start count)) source tag
  .done (store mem (t.places start count) bytes)

/-- The round for rank `j` of the loops in which `WA_Gatherv` and `WA_Alltoallv` receive;
the own block, which starts at `src` in the send buffer, is copied by `memcpy`. -/
def collectFrom (recvcounts : Nat → Nat) (displs : Nat → Int) (recvtype : Datatype) (tag : Int)
    (sendbuf : Int → UInt8) (src : Int) (recvbuf : Int → UInt8) (j : Nat) :
    Caller UInt8 (Int → UInt8) :=
  if j = c.globalRank then
    .done (copy recvbuf (displs j * recvtype.extent) sendbuf src (recvcounts j * recvtype.extent))
  else
    recvData packing p c recvbuf (displs j * recvtype.extent) (recvcounts j) recvtype j tag

end Empi

/-- Elements of a datatype fit into a message. -/
def Datatype.Sendable (packing : List Basic → Packing UInt8) (t : Datatype) (count : Nat) : Prop :=
  (packing (t.signature count)).Sendable (t.offsets count).length

/-- What fits depends on the basic types only. -/
theorem Datatype.sendable_congr {packing : List Basic → Packing UInt8} {t t' : Datatype}
    {count count' : Nat} (h : t.signature count = t'.signature count') :
    t.Sendable packing count ↔ t'.Sendable packing count' := by
  rw [Sendable, Sendable, h, length_offsets_eq h]

/-- Bytes in the message format of `EMPI_BYTE`. -/
theorem Datatype.sendable_byte {t : Datatype} {count : Nat} :
    t.Sendable (fun _ => bytePacking) count ↔
      dataMessageSize + (t.offsets count).length < 2 ^ 31 :=
  bytePacking_sendable

/-! ### What is collected -/

/-- A round of such a loop at rank `r`, where `data j` are the bytes from rank `j`. -/
def collectRound (recvcounts : Nat → Nat) (displs : Nat → Int) (recvtype : Datatype)
    (sendbuf : Int → UInt8) (src : Int) (data : Nat → List UInt8) (r : Nat)
    (recvbuf : Int → UInt8) (j : Nat) : Int → UInt8 :=
  if j = r then
    copy recvbuf (displs j * recvtype.extent) sendbuf src (recvcounts j * recvtype.extent)
  else
    store recvbuf (recvtype.places (displs j * recvtype.extent) (recvcounts j)) (data j)

/-- The blocks of a receive buffer are apart, and the bytes of each. -/
structure Apart (size : Nat) (recvcounts : Nat → Nat) (displs : Nat → Int)
    (recvtype : Datatype) : Prop where
  nodup : ∀ j < size, (recvtype.offsets (recvcounts j)).Nodup
  disjoint : ∀ i < size, ∀ j < size, i ≠ j →
    ∀ a ∈ recvtype.places (displs i * recvtype.extent) (recvcounts i),
      a ∉ recvtype.places (displs j * recvtype.extent) (recvcounts j)

/-- The own block has the same places in the send buffer and in the receive buffer, and
they are among the `size` bytes that are copied. -/
def SamePlaces (sendtype : Datatype) (sendcount : Nat) (recvtype : Datatype) (recvcount : Nat)
    (size : Nat) : Prop :=
  recvtype.offsets recvcount = sendtype.offsets sendcount ∧
    ∀ o ∈ recvtype.offsets recvcount, 0 ≤ o ∧ o < size

/-- They are just these bytes. -/
def Fills (sendtype : Datatype) (sendcount : Nat) (recvtype : Datatype) (recvcount : Nat)
    (size : Nat) : Prop :=
  recvtype.offsets recvcount = sendtype.offsets sendcount ∧
    ∀ o, o ∈ recvtype.offsets recvcount ↔ 0 ≤ o ∧ o < size

section Contiguous

variable {t : Datatype} (h : t.bytes = block 0 t.extent)
include h

/-- Elements of one datatype without gaps have the same places on both sides. -/
theorem fills_self (count : Nat) : Fills t count t count (count * t.extent) := by
  refine ⟨rfl, fun o => ?_⟩
  rw [Datatype.offsets_eq_block h, mem_block, Int.zero_add]

/-- Blocks of such elements that follow each other are apart. -/
theorem apart_self (size count : Nat) :
    Apart size (fun _ => count) (fun j => count * j) t where
  nodup j _ := by
    rw [Datatype.offsets_eq_block h]
    exact nodup_block 0 _
  disjoint i _ j _ hij a ha ha' := by
    rw [Datatype.mem_places_iff h] at ha ha'
    rcases Nat.lt_or_gt_of_ne hij with hlt | hlt
    · have hnext : count * (i + 1) * t.extent ≤ count * j * t.extent :=
        Nat.mul_le_mul_right _ (Nat.mul_le_mul_left _ hlt)
      zify at hnext
      linarith [ha.2, ha'.1]
    · have hnext : count * (j + 1) * t.extent ≤ count * i * t.extent :=
        Nat.mul_le_mul_right _ (Nat.mul_le_mul_left _ hlt)
      zify at hnext
      linarith [ha.1, ha'.2]

end Contiguous

/-- The receive buffer of a rank with the blocks of all ranks, where `data j` is that of
rank `j`. -/
def gathered (size : Nat) (recvcounts : Nat → Nat) (displs : Nat → Int) (recvtype : Datatype)
    (data : Nat → List UInt8) (recvbuf : Int → UInt8) : Int → UInt8 :=
  (List.range size).foldl (fun mem j =>
    store mem (recvtype.places (displs j * recvtype.extent) (recvcounts j)) (data j)) recvbuf

/-- The same, with the own block as it is copied. -/
def collected (size : Nat) (recvcounts : Nat → Nat) (displs : Nat → Int) (recvtype : Datatype)
    (sendbuf : Int → UInt8) (src : Int) (data : Nat → List UInt8) (r : Nat)
    (recvbuf : Int → UInt8) : Int → UInt8 :=
  (List.range size).foldl (collectRound recvcounts displs recvtype sendbuf src data r) recvbuf

section Collected

variable {size r : Nat} {recvcounts : Nat → Nat} {displs : Nat → Int} {recvtype : Datatype}
  {sendbuf recvbuf : Int → UInt8} {src a : Int} {data : Nat → List UInt8}

/-- A loop in which only the round of a rank matters for a place. -/
theorem foldl_eq_own {f : (Int → UInt8) → Nat → Int → UInt8} (hr : r < size)
    (hothers : ∀ i < size, i ≠ r → ∀ mem, f mem i a = mem a)
    (hown : ∀ mem mem', mem a = mem' a → f mem r a = f mem' r a) (mem : Int → UInt8) :
    (List.range size).foldl f mem a = f mem r a := by
  have hsame : ∀ l : List Nat, (∀ i ∈ l, i < size ∧ i ≠ r) → ∀ mem, l.foldl f mem a = mem a := by
    intro l hl
    induction l with
    | nil => exact fun _ => rfl
    | cons i l ih =>
        intro mem
        obtain ⟨hi, hir⟩ := hl i List.mem_cons_self
        rw [List.foldl_cons, ih fun j hj => hl j (List.mem_cons_of_mem i hj), hothers i hi hir]
  obtain ⟨after, hrange, hafter⟩ := exists_range_around hr
  have hlt : ∀ i ∈ after, i < size := fun i hi => List.mem_range.mp (by
    rw [hrange]
    exact List.mem_append_right _ (List.mem_cons_of_mem r hi))
  rw [hrange, List.foldl_append, List.foldl_cons,
    hsame after fun i hi => ⟨hlt i hi, (hafter i hi).ne'⟩]
  apply hown
  refine hsame (List.range r) (fun i hi => ?_) mem
  have := List.mem_range.mp hi
  exact ⟨this.trans hr, this.ne⟩

/-- What the loop that copies the own block makes of a place outside of the other ones. -/
theorem collected_own (hr : r < size)
    (ha : ∀ i < size, i ≠ r → a ∉ recvtype.places (displs i * recvtype.extent) (recvcounts i)) :
    collected size recvcounts displs recvtype sendbuf src data r recvbuf a =
      copy recvbuf (displs r * recvtype.extent) sendbuf src (recvcounts r * recvtype.extent) a := by
  have hown : collectRound recvcounts displs recvtype sendbuf src data r recvbuf r =
      copy recvbuf (displs r * recvtype.extent) sendbuf src
        (recvcounts r * recvtype.extent) := if_pos rfl
  rw [← hown]
  apply foldl_eq_own hr
  · intro i hi hir mem
    rw [collectRound, if_neg hir]
    exact store_of_notMem (ha i hi hir)
  · intro mem mem' hsame
    rw [collectRound, collectRound, if_pos rfl, if_pos rfl]
    exact store_congr hsame

/-- The same for the loop that stores it. -/
theorem gathered_own (hr : r < size)
    (ha : ∀ i < size, i ≠ r → a ∉ recvtype.places (displs i * recvtype.extent) (recvcounts i)) :
    gathered size recvcounts displs recvtype data recvbuf a =
      store recvbuf (recvtype.places (displs r * recvtype.extent) (recvcounts r)) (data r) a :=
  foldl_eq_own
    (f := fun mem j =>
      store mem (recvtype.places (displs j * recvtype.extent) (recvcounts j)) (data j))
    hr (fun i hi hir _ => store_of_notMem (ha i hi hir)) (fun _ _ hsame => store_congr hsame)
    recvbuf

/-- What it makes of the block of another rank that the copy leaves alone. -/
theorem load_collected_of_ne {j : Nat} (hapart : Apart size recvcounts displs recvtype)
    (hj : j < size) (hjr : j ≠ r)
    (hlength : (recvtype.offsets (recvcounts j)).length = (data j).length)
    (hcopy : ∀ a ∈ recvtype.places (displs j * recvtype.extent) (recvcounts j),
      a ∉ block (displs r * recvtype.extent) (recvcounts r * recvtype.extent)) :
    load (collected size recvcounts displs recvtype sendbuf src data r recvbuf)
        (recvtype.places (displs j * recvtype.extent) (recvcounts j)) = data j := by
  have hround : ∀ mem, collectRound recvcounts displs recvtype sendbuf src data r mem j =
      store mem (recvtype.places (displs j * recvtype.extent) (recvcounts j)) (data j) :=
    fun _ => if_neg hjr
  have hplace : ∀ a ∈ recvtype.places (displs j * recvtype.extent) (recvcounts j),
      collected size recvcounts displs recvtype sendbuf src data r recvbuf a =
        store recvbuf (recvtype.places (displs j * recvtype.extent) (recvcounts j)) (data j)
          a := by
    intro a ha
    rw [← hround]
    apply foldl_eq_own hj
    · intro i hi hij mem
      rw [collectRound]
      split
      · next hir =>
          rw [hir]
          exact store_of_notMem (hcopy a ha)
      · exact store_of_notMem (hapart.disjoint j hj i hi (Ne.symm hij) a ha)
    · intro mem mem' hsame
      rw [hround, hround]
      exact store_congr hsame
  rw [load_congr hplace]
  exact load_store (Datatype.nodup_places (hapart.nodup j hj) _) (by
    rw [Datatype.length_places, hlength])

variable {sendtype : Datatype} {sendcount : Nat}

/-- **The copy decides.**  Whatever the buffers hold, all blocks get where they are to be,
if and only if the own one has the same places on both sides. -/
theorem load_collected_iff (hr : r < size) (hapart : Apart size recvcounts displs recvtype)
    (places : Nat → List Int) (hplaces : places r = sendtype.places src sendcount)
    (hlength : ∀ j < size, (recvtype.offsets (recvcounts j)).length = (places j).length) :
    (∀ (sendbuf : Nat → Int → UInt8) (recvbuf : Int → UInt8), ∀ j < size,
        load (collected size recvcounts displs recvtype (sendbuf r) src
            (fun j => load (sendbuf j) (places j)) r recvbuf)
          (recvtype.places (displs j * recvtype.extent) (recvcounts j)) =
            load (sendbuf j) (places j)) ↔
      SamePlaces sendtype sendcount recvtype (recvcounts r) (recvcounts r * recvtype.extent) := by
  have hown := hlength r hr
  rw [hplaces, Datatype.length_places] at hown
  have hcopy := load_copy_iff (α := UInt8) (displs r * recvtype.extent) src
    (recvcounts r * recvtype.extent) hown
  have hself : ∀ {data : Nat → List UInt8} {mem mem' : Int → UInt8},
      load (collected size recvcounts displs recvtype mem' src data r mem)
          (recvtype.places (displs r * recvtype.extent) (recvcounts r)) =
        load (copy mem (displs r * recvtype.extent) mem' src (recvcounts r * recvtype.extent))
          (recvtype.places (displs r * recvtype.extent) (recvcounts r)) :=
    load_congr fun a ha => collected_own hr fun i hi hir =>
      hapart.disjoint r hr i hi (Ne.symm hir) a ha
  constructor
  · intro h
    refine hcopy.mp fun mem mem' => ?_
    have hsame := h (fun _ => mem') mem r hr
    rwa [hself, hplaces] at hsame
  · intro hplace sendbuf recvbuf j hj
    by_cases hjr : j = r
    · subst hjr
      rw [hself, hplaces]
      exact hcopy.mpr hplace _ _
    · refine load_collected_of_ne hapart hj hjr ?_ fun a ha =>
        Datatype.notMem_block hplace.2 (hapart.disjoint j hj r hr hjr) ha
      rw [length_load, hlength j hj]

/-- Its receive buffer is then that with the blocks of all ranks and nothing else has
changed, if and only if the own block fills what is copied. -/
theorem collected_eq_iff (hr : r < size) (hapart : Apart size recvcounts displs recvtype)
    (places : Nat → List Int) (hplaces : places r = sendtype.places src sendcount)
    (hsignature : sendtype.signature sendcount = recvtype.signature (recvcounts r)) :
    (∀ (sendbuf : Nat → Int → UInt8) (recvbuf : Int → UInt8),
        collected size recvcounts displs recvtype (sendbuf r) src
            (fun j => load (sendbuf j) (places j)) r recvbuf =
          gathered size recvcounts displs recvtype (fun j => load (sendbuf j) (places j))
            recvbuf) ↔
      Fills sendtype sendcount recvtype (recvcounts r) (recvcounts r * recvtype.extent) := by
  have hlength := (Datatype.length_offsets_eq hsignature).symm
  have hcopy := copy_eq_store_iff (α := UInt8) (displs r * recvtype.extent) src
    (recvcounts r * recvtype.extent) (hapart.nodup r hr) hlength
  constructor
  · intro h
    -- at the places that no other block has, both loops do what the own round does
    have hown : ∀ (mem mem' : Int → UInt8) (a : Int),
        (∀ i < size, i ≠ r →
          a ∉ recvtype.places (displs i * recvtype.extent) (recvcounts i)) →
        copy mem (displs r * recvtype.extent) mem' src (recvcounts r * recvtype.extent) a =
          store mem (recvtype.places (displs r * recvtype.extent) (recvcounts r))
            (load mem' (sendtype.places src sendcount)) a := by
      intro mem mem' a ha
      have hsame := congrFun (h (fun _ => mem') mem) a
      rwa [collected_own hr ha, gathered_own hr ha, hplaces] at hsame
    have hself : ∀ a ∈ recvtype.places (displs r * recvtype.extent) (recvcounts r),
        ∀ i < size, i ≠ r →
          a ∉ recvtype.places (displs i * recvtype.extent) (recvcounts i) :=
      fun a ha i hi hir => hapart.disjoint r hr i hi (Ne.symm hir) a ha
    have hload : ∀ mem mem' : Int → UInt8,
        load (copy mem (displs r * recvtype.extent) mem' src (recvcounts r * recvtype.extent))
          (recvtype.places (displs r * recvtype.extent) (recvcounts r)) =
            load mem' (sendtype.places src sendcount) := by
      intro mem mem'
      rw [load_congr fun a ha => hown mem mem' a (hself a ha)]
      exact load_store (Datatype.nodup_places (hapart.nodup r hr) _) (by
        rw [Datatype.length_places, length_load, Datatype.length_places, hlength])
    have hin := ((load_copy_iff _ _ _ hlength).mp hload).2
    refine hcopy.mp fun mem mem' => funext fun a => ?_
    by_cases hregion : a ∈ block (displs r * recvtype.extent) (recvcounts r * recvtype.extent)
    · refine hown mem mem' a fun i hi hir hmem => ?_
      exact Datatype.notMem_block hin (hapart.disjoint i hi r hr hir) hmem hregion
    · obtain ⟨k, rfl⟩ : ∃ k, a = displs r * recvtype.extent + k :=
        ⟨a - displs r * recvtype.extent, by omega⟩
      have hk : ¬ (0 ≤ k ∧ k < (recvcounts r * recvtype.extent : Nat)) := by
        rw [mem_block] at hregion
        omega
      rw [copy_outside hk, store_of_notMem]
      intro hmem
      obtain ⟨o, ho, heq⟩ := List.mem_map.mp hmem
      rw [Int.add_left_cancel heq] at ho
      exact hk (hin k ho)
  · intro hfills sendbuf recvbuf
    unfold collected gathered
    congr 1
    funext mem j
    rw [collectRound]
    split
    · next hj =>
        rw [hj]
        show _ = store _ _ (load (sendbuf r) (places r))
        rw [hplaces]
        exact hcopy.mpr hfills mem (sendbuf r)
    · rfl

end Collected

/-! ### What a member does -/

namespace View

variable {packing : List Basic → Packing UInt8} {members : List Pid} {n r i : Nat} {p : Process}
  {c : Communicator} {tag : Int}

theorem follows_sendData (h : View members n r p c) (hpk : ∀ l, (packing l).Lawful)
    (mem : Int → UInt8) (start : Int) {count : Nat} {t : Datatype}
    (hsend : clusterAt members r ≠ clusterAt members i → t.Sendable packing count) (tag : Int)
    (hi : i < members.length) :
    Follows (Empi.sendData packing p c mem start count t i tag)
      [.send (transfer (packing (t.signature count)) members n tag
          (load mem (t.places start count)) r i).1
        (transfer (packing (t.signature count)) members n tag
          (load mem (t.places start count)) r i).2] () := by
  refine h.follows_doSend (hpk _) (fun hcluster => ?_) tag hi
  rw [length_load, Datatype.length_places]
  exact hsend hcluster

/-- To another cluster it fails, where the elements do not fit into a message. -/
theorem sendData_eq_fail (h : View members n r p c) {count : Nat} {t : Datatype}
    (hsend : ¬ t.Sendable packing count) (hcluster : clusterAt members i ≠ clusterAt members r)
    (mem : Int → UInt8) (start : Int) (tag : Int) (hi : i < members.length) :
    Empi.sendData packing p c mem start count t i tag = .fail := by
  refine h.doSend_eq_fail ?_ hcluster tag hi
  rwa [length_load, Datatype.length_places]

theorem follows_recvData (h : View members n r p c) (hpk : ∀ l, (packing l).Lawful)
    (mem : Int → UInt8) (start : Int) {count : Nat} {t : Datatype} {l : List Basic}
    (hl : l = t.signature count)
    (hsend : clusterAt members i ≠ clusterAt members r → t.Sendable packing count)
    {bytes : List UInt8} (hlength : (t.offsets count).length = bytes.length) (tag : Int)
    (hi : i < members.length) :
    Follows (Empi.recvData packing p c mem start count t i tag)
      [.recv (transfer (packing l) members n tag bytes i r).1
        (transfer (packing l) members n tag bytes i r).2]
      (store mem (t.places start count) bytes) := by
  subst hl
  have hbuf : (load mem (t.places start count)).length = bytes.length := by
    rw [length_load, Datatype.length_places, hlength]
  show Follows (Empi.doRecv (packing (t.signature count)) t.handle p c
    (load mem (t.places start count)) i tag >>= fun bytes => .done _) ([.recv _ _] ++ []) _
  refine (h.follows_doRecv (hpk _) (fun hcluster => ?_) hbuf tag hi).bind (.done _)
  rw [← hlength]
  exact hsend hcluster

theorem polite_sendData (h : View members n r p c) (htag : IsCollectiveTag tag)
    (mem : Int → UInt8) (start : Int) (count : Nat) (t : Datatype) (dest : Nat) :
    Polite members n r (Empi.sendData packing p c mem start count t dest tag) :=
  h.polite_doSend htag _ dest

theorem polite_recvData (h : View members n r p c) (htag : IsCollectiveTag tag)
    (mem : Int → UInt8) (start : Int) (count : Nat) (t : Datatype) (source : Nat) :
    Polite members n r (Empi.recvData packing p c mem start count t source tag) :=
  (h.polite_doRecv htag _ source).bind fun _ => .done _

variable {recvcounts : Nat → Nat} {displs : Nat → Int} {recvtype : Datatype}
  {sendbuf : Int → UInt8} {src : Int} {data : Nat → List UInt8}

/-- **A loop of receives** takes a message from each other rank. -/
theorem follows_collectFrom (h : View members n r p c) (hpk : ∀ l, (packing l).Lawful)
    (signatures : Nat → List Basic)
    (hsignature : ∀ j < members.length, j ≠ r →
      signatures j = recvtype.signature (recvcounts j))
    (hsend : ∀ j < members.length, clusterAt members j ≠ clusterAt members r →
      recvtype.Sendable packing (recvcounts j))
    (hlength : ∀ j < members.length, j ≠ r →
      (recvtype.offsets (recvcounts j)).length = (data j).length) (recvbuf : Int → UInt8) :
    Follows ((List.range c.globalSize).foldlM
      (Empi.collectFrom packing p c recvcounts displs recvtype tag sendbuf src) recvbuf)
      ((List.range members.length).flatMap fun j =>
        if j = r then []
        else [.recv (transfer (packing (signatures j)) members n tag (data j) j r).1
          (transfer (packing (signatures j)) members n tag (data j) j r).2])
      (collected members.length recvcounts displs recvtype sendbuf src data r recvbuf) := by
  rw [h.mirrors.globalSize, collected]
  refine Follows.foldlM_flatMap ?_ recvbuf
  intro mem j hj
  have hlt := List.mem_range.mp hj
  rw [Empi.collectFrom, collectRound, h.globalRank]
  by_cases hjr : j = r
  · rw [if_pos hjr, if_pos hjr, if_pos hjr]
    exact .done _
  · rw [if_neg hjr, if_neg hjr, if_neg hjr]
    exact h.follows_recvData hpk mem _ (hsignature j hlt hjr) (hsend j hlt) (hlength j hlt hjr)
      tag hlt

theorem polite_collectFrom (h : View members n r p c) (htag : IsCollectiveTag tag)
    (recvbuf : Int → UInt8) :
    Polite members n r ((List.range c.globalSize).foldlM
      (Empi.collectFrom packing p c recvcounts displs recvtype tag sendbuf src) recvbuf) := by
  refine Keeps.foldlM ?_ recvbuf
  intro mem j _
  unfold Empi.collectFrom
  split
  · exact .done _
  · exact h.polite_recvData htag mem _ _ _ j

end View

end EsalsaMpi
