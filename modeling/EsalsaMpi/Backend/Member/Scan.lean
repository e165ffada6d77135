import EsalsaMpi.Backend.Allgatherv.Result
import EsalsaMpi.Backend.Member.Reduce
import EsalsaMpi.Backend.Member.Transfers

/-!
# Scans

In `EMPI_Scan` every member sends its buffer to all members with a higher rank, and
combines what it receives from those with a lower rank with its own, in rank order.
Each combination has what was received on the left and what has come out so far on
the right, so the member with rank `r` gets `x_{r-1} op (… op (x_0 op x_r))`: the
buffers below its own are in the reverse order.

This is the reduction in rank order where an operation lets two buffers before a third
one be swapped, and from three members on only there.  Besides, the function of the operation
has to do what the library's operation does, nothing may stop it (`Operation.Supports`), and
the receive buffer is filled with `memcpy` first (`System.scans_deliver_iff`).
-/

namespace EsalsaMpi

open ProcessNetwork Reductions

/-! ### The table of operations -/

/-- `MAX_OPERATIONS`. -/
def maxOperations : Nat := 256

/-- The operations of a process by their handles, and `next_operation`. -/
structure OperationTable (α : Type) where
  ops : List (Option (Operation α))
  nextOperation : Nat

namespace OperationTable

variable {α : Type}

/-- `init_operation`; behind the end of the array nothing is defined. -/
def initOperation (t : OperationTable α) (handle : Nat) (op : Operation α) :
    Option (OperationTable α) :=
  if maxOperations < handle then
    none
  else
    match t.ops[handle]? with
    | some none => some
      { ops := t.ops.set handle (some { op with handle := handle }),
        nextOperation := if t.nextOperation ≤ handle then handle + 1 else t.nextOperation }
    | _ => none

/-- `create_operation`: the handle, and the table then. -/
def createOperation (t : OperationTable α) (op : Operation α) :
    Option (Nat × OperationTable α) :=
  ({ t with nextOperation := t.nextOperation + 1 }.initOperation t.nextOperation op).map
    fun t' => (t.nextOperation, t')

/-- `handle_to_operation`. -/
def handleToOperation (t : OperationTable α) (handle : Int) : Option (Operation α) :=
  if handle < 0 ∨ maxOperations ≤ handle then none else t.ops[handle.toNat]?.join

/-- **An operation that is created** is found by its handle, and all others are what they
were. -/
theorem handleToOperation_create {t t' : OperationTable α} {op : Operation α} {handle : Nat}
    (h : t.createOperation op = some (handle, t')) (hroom : t.ops.length = maxOperations)
    (i : Nat) :
    t'.handleToOperation i =
      if i = handle then some { op with handle := handle } else t.handleToOperation i := by
  simp only [createOperation, initOperation] at h
  split at h
  · cases h
  · split at h
    · next hfree =>
        obtain ⟨hlt, _⟩ := List.getElem?_eq_some_iff.mp hfree
        cases h
        by_cases hi : i = t.nextOperation
        · subst hi
          have hin : ¬ ((t.nextOperation : Int) < 0 ∨
              (maxOperations : Int) ≤ (t.nextOperation : Int)) := by omega
          rw [if_pos rfl, handleToOperation, if_neg hin]
          simp [hlt]
        · rw [if_neg hi, handleToOperation, handleToOperation]
          simp [List.getElem?_set_ne (Ne.symm hi)]
    · cases h

end OperationTable

namespace Empi

variable {α : Type} (p : Process) (c : Communicator) (lib : Library α) (op : Operation α)
  (t : ElementType α)

/-- The round for rank `i` of the loop in `EMPI_Scan`, with what is in `buffer` and in
`recvbuf`. -/
def scanFrom (sendbuf : List α) (s : List α × List α) (i : Nat) :
    Caller α (List α × List α) :=
  if c.globalRank < i then do
    doSend t.pk p c sendbuf i scanTag
    .done s
  else if i < c.globalRank then do
    let buffer ← doRecv t.pk t.handle p c s.1 i scanTag
    let recvbuf ← .ofOption (op.function t.handle buffer s.2)
    .done (buffer, recvbuf)
  else
    .done s

/-- `EMPI_Scan`: what is in `recvbuf` then.  `fresh` is what `malloc` yields. -/
def scan (sendbuf fresh : List α) : Caller α (List α) :=
  if c.commIsLocal then
    pmpiScan c lib op t.handle sendbuf
  else do
    let recvbuf ← .ofOption (t.raw sendbuf)
    let s ← (List.range c.globalSize).foldlM (scanFrom p c op t sendbuf) (fresh, recvbuf)
    .done s.2

end Empi

/-- What `EMPI_Scan` makes of the buffers up to rank `r`, where `merge` combines two. -/
def scanned {α : Type} (merge : List α → List α → List α) (data : Nat → List α) (r : Nat) :
    List α :=
  (List.range r).foldl (fun acc i => merge (data i) acc) (data r)

/-- Two buffers of `count` elements that come before a third one may be swapped. -/
def Operation.Swaps {α : Type} (op : Operation α) (type : Int) (count : Nat) : Prop :=
  ∀ {x y z : List α}, x.length = count → y.length = count → z.length = count →
    op.combine type x (op.combine type y z) = op.combine type y (op.combine type x z)

/-- A commutative operation lets them be swapped. -/
theorem Operation.Commutes.swaps {α : Type} {op : Operation α} {type : Int} {count : Nat}
    (hcomm : op.Commutes type count) (h : op.Associates type count) : op.Swaps type count := by
  intro x y z hx hy hz
  rw [← h.assoc hx hy hz, hcomm hx hy, h.assoc hy hx hz]

section Scanned

variable {α : Type} {op : Operation α} {type : Int} {count r : Nat} {data : Nat → List α}

/-- Up to the second member nothing is reversed. -/
theorem scanned_of_lt_two (hr : r < 2) :
    scanned (op.combine type) data r = upTo (op.combine type) data r := by
  rcases (by omega : r = 0 ∨ r = 1) with rfl | rfl
  · rfl
  · rfl

theorem scanned_of_swaps (h : op.Associates type count) (hswaps : op.Swaps type count)
    (hlength : ∀ i ≤ r, (data i).length = count) :
    scanned (op.combine type) data r = upTo (op.combine type) data r :=
  foldl_eq_upTo (S := {buf : List α | buf.length = count}) h hswaps hlength

/-- A member may combine as the library does. -/
theorem scanned_merge (hagrees : op.Agrees type count)
    (hlength : ∀ i ≤ r, (data i).length = count) :
    scanned (op.merge type) data r = scanned (op.combine type) data r := by
  have hloop : ∀ (l : List Nat) (acc : List α), (∀ i ∈ l, i ≤ r) → acc.length = count →
      l.foldl (fun acc i => op.merge type (data i) acc) acc =
        l.foldl (fun acc i => op.combine type (data i) acc) acc := by
    intro l acc hl hacc
    induction l generalizing acc with
    | nil => rfl
    | cons i l ih =>
        have hi := hlength i (hl i List.mem_cons_self)
        have hmerge := hagrees hi hacc
        rw [List.foldl_cons, List.foldl_cons, ← hmerge]
        exact ih _ (fun j hj => hl j (List.mem_cons_of_mem i hj)) (by rw [op.length_merge, hacc])
  exact hloop _ _ (fun i hi => (List.mem_range.mp hi).le) (hlength r (Nat.le_refl r))

/-- The second member shows whether the function does what the library does. -/
theorem agrees_of_scanned
    (h : ∀ data : Nat → List α, (∀ i, (data i).length = count) →
      scanned (op.merge type) data 1 = upTo (op.combine type) data 1) : op.Agrees type count := by
  intro x y hx hy
  let data : Nat → List α := fun i => if i = 0 then x else y
  have hlength : ∀ i, (data i).length = count := by
    intro i
    simp only [data]
    split
    · exact hx
    · exact hy
  exact h data hlength

/-- The third member shows whether buffers may be swapped. -/
theorem swaps_of_scanned
    (h : ∀ data : Nat → List α, (∀ i, (data i).length = count) →
      scanned (op.combine type) data 2 = upTo (op.combine type) data 2) : op.Swaps type count := by
  intro x y z hx hy hz
  let data : Nat → List α := fun i => if i = 0 then y else if i = 1 then x else z
  have hlength : ∀ i, (data i).length = count := by
    intro i
    simp only [data]
    split
    · exact hy
    · split
      · exact hx
      · exact hz
  exact h data hlength

end Scanned

/-! ### What a member does -/

/-- The transfers of a scan: from each rank to all higher ones. -/
def scanPairs (size : Nat) : List (Nat × Nat) :=
  (List.range size).flatMap fun s => ((List.range size).filter (s < ·)).map fun d => (s, d)

theorem mem_scanPairs {size : Nat} {t : Nat × Nat} :
    t ∈ scanPairs size ↔ t.1 < t.2 ∧ t.2 < size := by
  constructor
  · intro ht
    obtain ⟨s, _, ht⟩ := List.mem_flatMap.mp ht
    obtain ⟨d, hd, rfl⟩ := List.mem_map.mp ht
    obtain ⟨hd, hlt⟩ := List.mem_filter.mp hd
    exact ⟨of_decide_eq_true hlt, List.mem_range.mp hd⟩
  · rintro ⟨hlt, hsize⟩
    refine List.mem_flatMap.mpr ⟨t.1, List.mem_range.mpr (hlt.trans hsize), ?_⟩
    refine List.mem_map.mpr ⟨t.2, List.mem_filter.mpr ⟨List.mem_range.mpr hsize, ?_⟩, rfl⟩
    exact decide_eq_true hlt

section Part

variable {β : Type} {size r : Nat} (send recv : Nat → β)

/-- What rank `r` does: it receives from the lower ranks and then sends to the higher
ones. -/
theorem flatMap_scanPairs {f : Nat → Nat → List β} (hr : r < size)
    (hsend : ∀ d, r < d → f r d = [send d]) (hrecv : ∀ s, s < r → f s r = [recv s])
    (hother : ∀ s d, s ≠ r → d ≠ r → f s d = []) :
    (scanPairs size).flatMap (fun t => f t.1 t.2) =
      (List.range size).flatMap fun i =>
        if r < i then [send i] else if i < r then [recv i] else [] := by
  obtain ⟨after, hrange, hafter⟩ := exists_range_around hr
  -- what `r` does with the transfers from rank `s`
  let own : Nat → List β := fun s => ((List.range size).filter (s < ·)).flatMap (f s)
  have hpairs : (scanPairs size).flatMap (fun t => f t.1 t.2) = (List.range size).flatMap own := by
    rw [scanPairs, List.flatMap_assoc]
    apply List.flatMap_congr
    intro s _
    rw [List.flatMap_map]
  have hbelow : ∀ s ∈ List.range r, own s = [recv s] := by
    intro s hs
    have hlt := List.mem_range.mp hs
    have hmem : r ∈ (List.range size).filter (s < ·) :=
      List.mem_filter.mpr ⟨List.mem_range.mpr hr, decide_eq_true hlt⟩
    have hnodup : ((List.range size).filter (s < ·)).Nodup := List.nodup_range.filter _
    have hsingle := flatMap_single r hnodup fun d _ hd => hother s d hlt.ne hd
    rwa [if_pos hmem, hrecv s hlt] at hsingle
  have hself : own r = after.flatMap fun d => [send d] := by
    have hfilter : (List.range size).filter (r < ·) = after := by
      rw [hrange, List.filter_append, List.filter_cons, if_neg (by simp),
        List.filter_eq_nil_iff.mpr fun i hi => by
          have := List.mem_range.mp hi
          simp
          omega, List.nil_append]
      exact List.filter_eq_self.mpr fun i hi => decide_eq_true (hafter i hi)
    show ((List.range size).filter (r < ·)).flatMap (f r) = _
    rw [hfilter]
    exact List.flatMap_congr fun d hd => hsend d (hafter d hd)
  have habove : ∀ s ∈ after, own s = [] := by
    intro s hs
    have hlt := hafter s hs
    refine List.flatMap_eq_nil_iff.mpr fun d hd => hother s d hlt.ne' ?_
    have := of_decide_eq_true (List.mem_filter.mp hd).2
    omega
  have hbelow' : ∀ i ∈ List.range r,
      (if r < i then [send i] else if i < r then [recv i] else []) = [recv i] := by
    intro i hi
    have hlt := List.mem_range.mp hi
    rw [if_neg hlt.not_gt, if_pos hlt]
  have hafter' : ∀ i ∈ after,
      (if r < i then [send i] else if i < r then [recv i] else []) = [send i] :=
    fun i hi => if_pos (hafter i hi)
  rw [hpairs, hrange, List.flatMap_append, List.flatMap_append, List.flatMap_cons,
    List.flatMap_cons, List.flatMap_congr hbelow, hself, List.flatMap_eq_nil_iff.mpr habove,
    List.flatMap_congr hbelow', List.flatMap_congr hafter', if_neg (Nat.lt_irrefl r),
    if_neg (Nat.lt_irrefl r), List.append_nil, List.nil_append]

end Part

section Loop

variable {α : Type} {op : Operation α} {type : Int} {data : Nat → List α} {r : Nat}

/-- A round of the loop, with what is in `buffer` and in `recvbuf`. -/
def scanRound (op : Operation α) (type : Int) (data : Nat → List α) (r : Nat)
    (s : List α × List α) (i : Nat) : List α × List α :=
  if r < i then s else if i < r then (data i, op.merge type (data i) s.2) else s

theorem foldl_scanRound_below {l : List Nat} (hl : ∀ i ∈ l, i < r) (s : List α × List α) :
    (l.foldl (scanRound op type data r) s).2 =
      l.foldl (fun acc i => op.merge type (data i) acc) s.2 := by
  induction l generalizing s with
  | nil => rfl
  | cons i l ih =>
      have hlt := hl i List.mem_cons_self
      rw [List.foldl_cons, ih fun j hj => hl j (List.mem_cons_of_mem i hj), List.foldl_cons,
        scanRound, if_neg hlt.not_gt, if_pos hlt]

theorem foldl_scanRound_above {l : List Nat} (hl : ∀ i ∈ l, r ≤ i) (s : List α × List α) :
    l.foldl (scanRound op type data r) s = s := by
  induction l with
  | nil => rfl
  | cons i l ih =>
      have hround : scanRound op type data r s i = s := by
        have := hl i List.mem_cons_self
        rw [scanRound]
        split
        · rfl
        · exact if_neg (by omega)
      rw [List.foldl_cons, hround, ih fun j hj => hl j (List.mem_cons_of_mem i hj)]

/-- **What the loop makes of the buffers.** -/
theorem foldl_scanRound {size : Nat} (hr : r < size) (buffer : List α) :
    ((List.range size).foldl (scanRound op type data r) (buffer, data r)).2 =
      scanned (op.merge type) data r := by
  obtain ⟨after, hrange, hafter⟩ := exists_range_around hr
  have habove : ∀ i ∈ r :: after, r ≤ i := by
    intro i hi
    rcases List.mem_cons.mp hi with rfl | hi
    · exact Nat.le_refl _
    · exact (hafter i hi).le
  rw [hrange, List.foldl_append, foldl_scanRound_above habove,
    foldl_scanRound_below fun i hi => List.mem_range.mp hi]
  rfl

end Loop

namespace View

variable {α : Type} {t : ElementType α} {members : List Pid} {n r count : Nat}
  {p : Process} {c : Communicator} {lib : Library α} {op : Operation α} {data : Nat → List α}

/-- **The part of a member in a scan** over the wide area. -/
theorem follows_scan (h : View members n r p c) (hremote : ¬ OneCluster members)
    (hpk : t.pk.Lawful) (hlength : ∀ i < members.length, (data i).length = count)
    (hop : op.Supports t count) {fresh : List α} (hfresh : fresh.length = count) :
    Follows (Empi.scan p c lib op t (data r) fresh)
      (partOf Lane.source Lane.dest r
        (transfers (fun _ _ => t.pk) members n scanTag (fun s _ => data s)
          (scanPairs members.length)))
      (scanned (op.merge t.handle) data r) := by
  have htrace := flatMap_scanPairs
    (sendOf (fun _ _ => t.pk) members n scanTag (fun s _ => data s) r)
    (fun s => recvOf (fun _ _ => t.pk) members n scanTag (fun s _ => data s) s r)
    (f := fun s d =>
      (if s = r then [sendOf (fun _ _ => t.pk) members n scanTag (fun s _ => data s) s d]
        else []) ++
      if d = r then [recvOf (fun _ _ => t.pk) members n scanTag (fun s _ => data s) s d]
      else []) h.rank_lt
    (fun d hd => by simp [hd.ne']) (fun s hs => by simp [hs.ne])
    (fun s d hs hd => by simp [hs, hd])
  have hsend : ∀ i < members.length, t.pk.Sendable (data i).length := by
    intro i hi
    rw [hlength i hi]
    exact hop.sendable
  have hloop : Follows ((List.range c.globalSize).foldlM
      (Empi.scanFrom p c op t (data r)) (fresh, data r))
      ((List.range members.length).flatMap fun i =>
        if r < i then [sendOf (fun _ _ => t.pk) members n scanTag (fun s _ => data s) r i]
        else if i < r then
          [recvOf (fun _ _ => t.pk) members n scanTag (fun s _ => data s) i r] else [])
      ((List.range members.length).foldl (scanRound op t.handle data r) (fresh, data r)) := by
    rw [h.mirrors.globalSize]
    conv in List.range members.length => rw [← List.length_range (n := members.length)]
    refine Follows.foldlM_index
      (P := fun s : List α × List α => s.1.length = count ∧ s.2.length = count) ?_
      ⟨hfresh, hlength r h.rank_lt⟩
    intro s i b hs hb
    obtain ⟨hi, rfl⟩ := List.getElem?_eq_some_iff.mp hb
    rw [List.length_range] at hi
    rw [List.getElem_range, Empi.scanFrom, h.globalRank, scanRound]
    by_cases habove : r < i
    · rw [if_pos habove, if_pos habove, if_pos habove]
      have hsent := (h.follows_doSend hpk (fun _ => hsend r h.rank_lt) scanTag hi).bind
        (f := fun _ => (.done s : Caller α (List α × List α))) (.done _)
      exact ⟨hsent, hs⟩
    · rw [if_neg habove, if_neg habove, if_neg habove]
      by_cases hbelow : i < r
      · rw [if_pos hbelow, if_pos hbelow, if_pos hbelow]
        refine ⟨?_, hlength i hi, (op.length_merge _ _ _).trans hs.2⟩
        refine (h.follows_doRecv hpk (fun _ => hsend i hi) (hs.1.trans (hlength i hi).symm)
          scanTag hi).bind ?_
        rw [op.function_of_covers hop.covers]
        exact .done _
      · rw [if_neg hbelow, if_neg hbelow, if_neg hbelow]
        exact ⟨.done s, hs⟩
  have hscan := hloop.bind (f := fun s => (.done s.2 : Caller α (List α))) (.done _)
  rw [foldl_scanRound h.rank_lt, List.append_nil, ← htrace, ← partOf_transfers] at hscan
  have hraw : t.raw (data r) = some (data r) := by
    apply if_pos
    rw [hlength r h.rank_lt]
    exact hop.holds
  rw [Empi.scan, if_neg (h.not_commIsLocal hremote), hraw]
  exact hscan

/-- **The part of a member** where the library does it. -/
theorem follows_scan_local (h : View members n r p c) (hone : OneCluster members)
    (hlength : ∀ i < members.length, (data i).length = count)
    (hlib : lib.Reduces op t.handle count) (fresh : List α) :
    Follows (Empi.scan p c lib op t (data r) fresh)
      (partOf Lane.source Lane.dest r [scanBlock members data])
      (upTo (op.combine t.handle) data r) := by
  obtain ⟨after, hrange, hafter⟩ := exists_range_around h.rank_lt
  have hranks : (localsOf members r).filter (· ≤ r) = List.range (r + 1) := by
    have hnone : after.filter (· ≤ r) = [] := by
      apply List.filter_eq_nil_iff.mpr
      intro i hi
      have := hafter i hi
      simp
      omega
    rw [localsOf_eq_range hone h.rank_lt, hrange, List.filter_append, List.filter_cons,
      if_pos (decide_eq_true (Nat.le_refl r)), hnone, List.range_succ]
    congr 1
    exact List.filter_eq_self.mpr fun i hi => decide_eq_true (List.mem_range.mp hi).le
  have hscan := h.follows_pmpiScan lib op t.handle data fun i hi =>
    (hlength i (mem_localsOf.mp hi).1).trans (hlength r h.rank_lt).symm
  have hresult : lib.reduce op t.handle ((List.range (r + 1)).map data) =
      upTo (op.combine t.handle) data r := by
    refine hlib _ _ ?_ (reduction_range data r)
    intro buf hbuf
    obtain ⟨i, hi, rfl⟩ := List.mem_map.mp hbuf
    have := List.mem_range.mp hi
    have := h.rank_lt
    exact hlength i (by omega)
  rw [hranks, hresult] at hscan
  rw [Empi.scan, if_pos (h.commIsLocal.mpr hone)]
  exact hscan

theorem polite_scan (h : View members n r p c) (sendbuf fresh : List α) :
    Polite members n r (Empi.scan p c lib op t sendbuf fresh) := by
  unfold Empi.scan
  split
  · exact h.polite_pmpiScan lib op t.handle sendbuf
  · refine (Keeps.ofOption _).bind fun recvbuf => (Keeps.foldlM ?_ _).bind fun s => .done s.2
    intro s i _
    unfold Empi.scanFrom
    split
    · exact (h.polite_doSend (by decide) sendbuf i).bind fun _ => .done s
    · split
      · exact (h.polite_doRecv (by decide) s.1 i).bind fun buffer =>
          (Keeps.ofOption _).bind fun recvbuf => .done _
      · exact .done s

/-- **A member is stuck** that cannot copy its send buffer, that has to send to another cluster
what does not fit into a message, or that has to combine where the function has no case. -/
theorem doomed_scan (h : View members n r p c) (hremote : ¬ OneCluster members)
    {sendbuf : List α} (fresh : List α)
    (hstuck : ¬ t.Holds sendbuf.length ∨
      (¬ t.pk.Sendable sendbuf.length ∧
        ∃ i, r < i ∧ i < members.length ∧ clusterAt members i ≠ clusterAt members r) ∨
      ¬ op.covers t.handle = true ∧ 0 < r) :
    Doomed (Empi.scan p c lib op t sendbuf fresh) := by
  rw [Empi.scan, if_neg (h.not_commIsLocal hremote)]
  rcases hstuck with hholds | ⟨hsend, i, hri, hi, hcluster⟩ | ⟨hcovers, hr⟩
  · rw [show t.raw sendbuf = none from if_neg hholds]
    exact .fail
  · refine Doomed.of_bind _ fun recvbuf => Doomed.bind (Doomed.foldlM
      (List.mem_range.mpr (h.mirrors.globalSize ▸ hi)) (fun s => ?_) _) _
    rw [Empi.scanFrom, h.globalRank, if_pos hri, h.doSend_eq_fail hsend hcluster _ hi]
    exact .fail
  · have hzero : 0 < c.globalSize := h.mirrors.globalSize ▸ hr.trans h.rank_lt
    refine Doomed.of_bind _ fun recvbuf => Doomed.bind (Doomed.foldlM
      (List.mem_range.mpr hzero) (fun s => ?_) _) _
    rw [Empi.scanFrom, h.globalRank, if_neg hr.not_gt, if_pos hr]
    refine Doomed.of_bind _ fun buffer => ?_
    rw [op.function_of_not_covers hcovers]
    exact .fail

end View

/-- Members that are not in one cluster have ranks in two of them. -/
theorem exists_ranks_apart {members : List Pid} (hne : members ≠ [])
    (hremote : ¬ OneCluster members) :
    ∃ i j, i < j ∧ j < members.length ∧ clusterAt members j ≠ clusterAt members i := by
  have hpos := List.length_pos_of_ne_nil hne
  obtain ⟨k, hk, hcluster⟩ := exists_other_cluster hremote hpos
  obtain ⟨hlt, hcoordinator⟩ := coordinatorOf_spec hk
  refine ⟨0, coordinatorOf members k, Nat.pos_of_ne_zero fun hzero => ?_, hlt, ?_⟩
  · rw [hzero] at hcoordinator
    exact hcluster hcoordinator.symm
  · rwa [hcoordinator]

/-- **Somebody is stuck** in a scan over the wide area that something stops. -/
theorem exists_doomed_scan {α : Type} {t : ElementType α} {members : List Pid} {n count : Nat}
    (lib : Library α) {op : Operation α} {data : Nat → List α} (hne : members ≠ [])
    (hremote : ¬ OneCluster members) (hlength : ∀ i < members.length, (data i).length = count)
    (hsupports : ¬ op.Supports t count) (fresh : Nat → List α) :
    ∃ r < members.length, ∀ p c, View members n r p c →
      Doomed (Empi.scan p c lib op t (data r) (fresh r)) := by
  obtain ⟨i, j, hij, hj, hcluster⟩ := exists_ranks_apart hne hremote
  have hi := hij.trans hj
  by_cases hcovers : op.covers t.handle = true
  · refine ⟨i, hi, fun p c h => h.doomed_scan hremote _ ?_⟩
    rw [hlength i hi]
    by_cases hholds : t.Holds count
    · exact Or.inr (Or.inl ⟨fun hsend => hsupports ⟨hcovers, hsend, hholds⟩, j, hij, hj, hcluster⟩)
    · exact Or.inl hholds
  · exact ⟨j, hj, fun p c h => h.doomed_scan hremote _
      (Or.inr (Or.inr ⟨hcovers, Nat.zero_lt_of_lt hij⟩))⟩

/-! ### Rows of scans -/

/-- What is the same for all members in `EMPI_Scan`: the operation, and the datatype with
the number of elements. -/
structure ScanKind (α : Type) where
  op : Operation α
  type : ElementType α
  count : Nat

/-- `EMPI_Scan`, with what is in the buffers of the members, and what `malloc` yields to
them. -/
structure ScanCall (α : Type) where
  kind : ScanKind α
  sendbuf : Nat → List α
  fresh : Nat → List α

/-- The operation is associative, and the library does its part. -/
structure ScanKind.Legal {α : Type} (lib : Library α) (kind : ScanKind α) : Prop where
  lawful : kind.type.pk.Lawful
  associates : kind.op.Associates kind.type.handle kind.count
  reduces : lib.Reduces kind.op kind.type.handle kind.count

namespace ScanCall

variable {α : Type}

/-- What a member runs. -/
def body (lib : Library α) (call : ScanCall α) (r : Nat) (p : Process) (c : Communicator) :
    Caller α (List α) :=
  Empi.scan p c lib call.kind.op call.kind.type (call.sendbuf r) (call.fresh r)

/-- The buffers have as many elements as the call says. -/
def Fits (size : Nat) (call : ScanCall α) : Prop :=
  ∀ r < size, (call.sendbuf r).length = call.kind.count ∧ (call.fresh r).length = call.kind.count

/-- What is to be in the receive buffer of rank `r`: the reduction of the send buffers
up to its own, in rank order. -/
def expected (call : ScanCall α) (r : Nat) : List α :=
  upTo (call.kind.op.combine call.kind.type.handle) call.sendbuf r

/-- What the loop over the wide area makes of the buffers. -/
def scanned (call : ScanCall α) (r : Nat) : List α :=
  EsalsaMpi.scanned (call.kind.op.merge call.kind.type.handle) call.sendbuf r

end ScanCall

/-- Scans of this kind have the right results on a communicator with these members: the library
does them, or nothing stops them, the function of the operation does what the library's operation
does, and there is no third member or buffers before a third one may be swapped. -/
def ScanKind.InOrder {α : Type} (members : List Pid) (kind : ScanKind α) : Prop :=
  members = [] ∨ OneCluster members ∨
    kind.op.Supports kind.type kind.count ∧ kind.op.Agrees kind.type.handle kind.count ∧
      (members.length ≤ 2 ∨ kind.op.Swaps kind.type.handle kind.count)

namespace System

variable {α : Type} {cfg : Server.Config} {order : Server.HashOrder} {s : System} {n : Nat}
  {sc : Server.Communicator} {lib : Library α}

/-- A scan over the wide area is performed, with what the loop makes of the buffers. -/
theorem performed_scan (hreach : System.Reachable cfg order s)
    (hsc : s.server[n]? = some (some sc))
    (hrunning : ∀ pid ∈ sc.tables.members, (s.processes pid).isSome)
    (hremote : ¬ OneCluster sc.tables.members) {call : ScanCall α} (hlegal : call.kind.Legal lib)
    (hfits : call.Fits sc.tables.members.length)
    (hsupports : call.kind.op.Supports call.kind.type call.kind.count) :
    Session.Performed sc.tables.members n (fun _ => True)
      (s.caller n sc.tables.members (call.body lib)) call.scanned := by
  refine performed hreach hsc hrunning (transfers (fun _ _ => call.kind.type.pk)
    sc.tables.members n scanTag (fun s _ => call.sendbuf s)
      (scanPairs sc.tables.members.length)) ?_ ?_ ?_ fun _ _ => trivial
  · intro r p c hview
    exact hview.polite_scan _ _
  · intro r p c hview
    exact hview.follows_scan hremote hlegal.lawful (fun i hi => (hfits i hi).1) hsupports
      (hfits r hview.rank_lt).2
  · apply inside_transfers
    intro t ht
    obtain ⟨hlt, hsize⟩ := mem_scanPairs.mp ht
    exact ⟨hlt.trans hsize, hsize⟩

/-- A scan that the library does is performed, as it is to be. -/
theorem performed_scan_local (hreach : System.Reachable cfg order s)
    (hsc : s.server[n]? = some (some sc))
    (hrunning : ∀ pid ∈ sc.tables.members, (s.processes pid).isSome)
    (hone : OneCluster sc.tables.members) {call : ScanCall α} (hlegal : call.kind.Legal lib)
    (hfits : call.Fits sc.tables.members.length) :
    Session.Performed sc.tables.members n (fun _ => True)
      (s.caller n sc.tables.members (call.body lib)) call.expected := by
  refine performed hreach hsc hrunning [scanBlock sc.tables.members call.sendbuf] ?_ ?_ ?_
    fun _ _ => trivial
  · intro r p c hview
    exact hview.polite_scan _ _
  · intro r p c hview
    exact hview.follows_scan_local hone (fun i hi => (hfits i hi).1) hlegal.reduces _
  · intro b hb
    rw [List.mem_singleton.mp hb]
    exact inside_libraryBlock _ _ _

/-- **A scan whose kind is right** is performed, as it is to be. -/
theorem performed_scan_inOrder (hreach : System.Reachable cfg order s)
    (hsc : s.server[n]? = some (some sc))
    (hrunning : ∀ pid ∈ sc.tables.members, (s.processes pid).isSome) {call : ScanCall α}
    (hlegal : call.kind.Legal lib) (hfits : call.Fits sc.tables.members.length)
    (horder : call.kind.InOrder sc.tables.members) :
    Session.Performed sc.tables.members n (fun _ => True)
      (s.caller n sc.tables.members (call.body lib)) call.expected := by
  by_cases hone : OneCluster sc.tables.members
  · exact performed_scan_local hreach hsc hrunning hone hlegal hfits
  · rcases horder with hnone | hlocal | ⟨hsupports, hagrees, hswaps⟩
    · refine performed hreach hsc hrunning [] (fun r p c h => h.polite_scan _ _) ?_ ?_ ?_
      · intro r p c h
        have hlt := h.rank_lt
        rw [hnone] at hlt
        exact absurd hlt (Nat.not_lt_zero r)
      · intro b hb
        cases hb
      · intro b hb
        cases hb
    · exact absurd hlocal hone
    · refine (performed_scan hreach hsc hrunning hone hlegal hfits hsupports).congr fun r hr => ?_
      have hlength : ∀ i ≤ r, (call.sendbuf i).length = call.kind.count :=
        fun i hi => (hfits i (by omega)).1
      refine (scanned_merge hagrees hlength).trans ?_
      rcases hswaps with htwo | hswaps
      · exact scanned_of_lt_two (by omega)
      · exact scanned_of_swaps hlegal.associates hswaps hlength

/-- **Scans.**  On a communicator of a run, all rows of scans with associative operations of
some kinds deliver the reductions in rank order, if and only if for each kind the members
are in one cluster, or nothing stops the scan, the function of the operation does what the
library's operation does, and the members are two at most or the operation lets two buffers
before a third one be swapped. -/
theorem scans_deliver_iff [Inhabited α] (hreach : System.Reachable cfg order s)
    (hsc : s.server[n]? = some (some sc))
    (hrunning : ∀ pid ∈ sc.tables.members, (s.processes pid).isSome)
    (kinds : Set (ScanKind α)) (hlegal : ∀ kind ∈ kinds, kind.Legal lib) :
    (∀ calls : List (ScanCall α),
      (∀ call ∈ calls, call.kind ∈ kinds ∧ call.Fits sc.tables.members.length) →
        Session.Delivers sc.tables.members n Session.Eager
          (s.session n sc.tables.members (calls.map (ScanCall.body lib)))
          fun r => calls.map fun call => call.expected r) ↔
      ∀ kind ∈ kinds, kind.InOrder sc.tables.members := by
  constructor
  · intro hall kind hkind
    by_cases hne : sc.tables.members = []
    · exact Or.inl hne
    by_cases hone : OneCluster sc.tables.members
    · exact Or.inr (Or.inl hone)
    -- one scan of the kind, with any buffers
    let call : (Nat → List α) → ScanCall α := fun data => ⟨kind, data, data⟩
    have hcall : ∀ data : Nat → List α, (∀ i, (data i).length = kind.count) →
        ∀ call' ∈ [call data], call'.kind ∈ kinds ∧ call'.Fits sc.tables.members.length := by
      intro data hlength call' hcall'
      rw [List.mem_singleton.mp hcall']
      exact ⟨hkind, fun r _ => ⟨hlength r, hlength r⟩⟩
    have hsupports : kind.op.Supports kind.type kind.count := by
      by_contra hnot
      let data : Nat → List α := fun _ => List.replicate kind.count default
      have hlength : ∀ i, (data i).length = kind.count := fun _ => List.length_replicate
      obtain ⟨r, hr, hdoomed⟩ := exists_doomed_scan (n := n) lib hne hone
        (fun i _ => hlength i) hnot data
      refine not_delivers hreach hsc hrunning ?_ (List.mem_singleton_self (call data)) hr hdoomed
        _ _ (hall [call data] (hcall data hlength))
      intro call' _ r p c hview
      exact hview.polite_scan _ _
    have hresult : ∀ data : Nat → List α, (∀ i, (data i).length = kind.count) →
        ∀ r < sc.tables.members.length, (call data).scanned r = (call data).expected r := by
      intro data hlength r hr
      have hperformed : ∀ call' ∈ [call data], Session.Performed sc.tables.members n (fun _ => True)
          (s.caller n sc.tables.members (call'.body lib)) call'.scanned := by
        intro call' hcall'
        rw [List.mem_singleton.mp hcall']
        exact performed_scan hreach hsc hrunning hone (hlegal kind hkind)
          (hcall data hlength _ (List.mem_singleton_self _)).2 hsupports
      exact (delivers_iff_of_performed hreach hsc hrunning hperformed ScanCall.expected).mp
        (hall [call data] (hcall data hlength)) _ (List.mem_singleton_self _) r hr
    obtain ⟨i, j, hij, hj, _⟩ := exists_ranks_apart hne hone
    have hagrees : kind.op.Agrees kind.type.handle kind.count := by
      apply agrees_of_scanned
      intro data hlength
      exact hresult data hlength 1 (by omega)
    refine Or.inr (Or.inr ⟨hsupports, hagrees, ?_⟩)
    by_cases htwo : sc.tables.members.length ≤ 2
    · exact Or.inl htwo
    · refine Or.inr (swaps_of_scanned fun data hlength => ?_)
      rw [← scanned_merge hagrees fun i _ => hlength i]
      exact hresult data hlength 2 (by omega)
  · intro horder calls hcalls
    refine delivers_of_performed hreach hsc hrunning fun call hcall => ?_
    obtain ⟨hkind, hfits⟩ := hcalls call hcall
    exact performed_scan_inOrder hreach hsc hrunning (hlegal _ hkind) hfits (horder _ hkind)

end System

/-! ### Three calls -/

namespace Operation

variable {α : Type}

/-- Combining buffers element by element to the left one. -/
def keepFirst (α : Type) (handle : Int) : Operation α := .elementwise handle (fun a _ => a) false

end Operation

namespace System

/-- The table of operations, with the predefined ones. -/
def predefinedOperations : OperationTable UInt8 where
  ops := (List.range 13).map (fun handle : Nat => some (.elementwise handle (· + ·) true)) ++
    List.replicate 243 none
  nextOperation := 13

theorem reachable_triple : Reachable .triple .insertion (start .triple tripleServer) :=
  ⟨tripleServer, Server.initCommWorld_eq .triple, Relation.ReflTransGen.refl⟩

theorem running_triple :
    ∀ pid ∈ Server.worldMembers .triple, ((start .triple tripleServer).processes pid).isSome :=
  List.all_eq_true.mp (by decide)

theorem not_oneCluster_triple : ¬ OneCluster (Server.worldMembers .triple) := by
  rintro ⟨_, hsame⟩
  have hclusters := hsame (setPid 0 0) (by decide) (setPid 1 0) (by decide)
  revert hclusters
  decide

/-- A scan of a byte of each process with the operation that keeps the left one. -/
def keepFirstScan : ScanCall UInt8 :=
  ⟨⟨.keepFirst UInt8 13, byteType, 1⟩, fun r => [UInt8.ofNat r], fun _ => [0]⟩

/-- An associative operation that the application has created as not commutative, and nothing
stops: the third of three processes ends with what the second one had, and not the first. -/
theorem not_scans_deliver_keepFirst :
    (∃ handle table, predefinedOperations.createOperation (.keepFirst UInt8 13) =
        some (handle, table) ∧ table.handleToOperation handle = some keepFirstScan.kind.op) ∧
      keepFirstScan.kind.op.commute = false ∧
        keepFirstScan.kind.op.Supports keepFirstScan.kind.type keepFirstScan.kind.count ∧
          keepFirstScan.kind.Legal (.inRankOrder UInt8) ∧
            keepFirstScan.Fits (Server.worldMembers .triple).length ∧
              ¬ Session.Delivers (Server.worldMembers .triple) 0 Session.Eager
                ((start .triple tripleServer).session 0 (Server.worldMembers .triple)
                  ([keepFirstScan].map (ScanCall.body (.inRankOrder UInt8))))
                fun r => [keepFirstScan.expected r] := by
  have hworld : (start .triple tripleServer).server[0]? = some (some
      (Server.Communicator.fresh 0 (Server.tablesSpec (Server.worldMembers .triple)))) := rfl
  have hlegal : keepFirstScan.kind.Legal (.inRankOrder UInt8) :=
    { lawful := bytePacking_lawful
      associates := Operation.associates_elementwise (fun _ _ _ => rfl) _ _
      reduces := Library.reduces_inRankOrder _ _ _ }
  have hfits : keepFirstScan.Fits (Server.worldMembers .triple).length := fun _ _ => ⟨rfl, rfl⟩
  have hsupports : keepFirstScan.kind.op.Supports keepFirstScan.kind.type
      keepFirstScan.kind.count := ⟨rfl, bytePacking_sendable.mpr (by decide), by decide⟩
  refine ⟨⟨13, _, rfl, rfl⟩, rfl, hsupports, hlegal, hfits, fun hdelivers => ?_⟩
  have hdone : ∀ call ∈ [keepFirstScan], Session.Performed (Server.worldMembers .triple) 0
      (fun _ => True) ((start .triple tripleServer).caller 0 (Server.worldMembers .triple)
        (call.body (.inRankOrder UInt8))) call.scanned := by
    intro call hcall
    rw [List.mem_singleton.mp hcall]
    exact performed_scan reachable_triple hworld running_triple not_oneCluster_triple hlegal hfits
      hsupports
  have hsame := (delivers_iff_of_performed reachable_triple hworld running_triple hdone
    ScanCall.expected).mp hdelivers keepFirstScan (List.mem_singleton_self _) 2 (by decide)
  revert hsame
  decide

/-- A scan that adds up a byte of each process, with an operation of the application. -/
def sumScan : ScanCall UInt8 :=
  ⟨⟨.elementwise 13 (· + ·) true, byteType, 1⟩, fun r => [UInt8.ofNat r + 3], fun _ => [0]⟩

/-- Three processes add up a byte each, twice. -/
theorem scans_deliver_triple :
    Session.Delivers (Server.worldMembers .triple) 0 Session.Eager
      ((start .triple tripleServer).session 0 (Server.worldMembers .triple)
        ([sumScan, sumScan].map (ScanCall.body (.inRankOrder UInt8))))
      fun r => [sumScan.expected r, sumScan.expected r] := by
  have hworld : (start .triple tripleServer).server[0]? = some (some
      (Server.Communicator.fresh 0 (Server.tablesSpec (Server.worldMembers .triple)))) := rfl
  have hassociates : sumScan.kind.op.Associates sumScan.kind.type.handle sumScan.kind.count :=
    Operation.associates_elementwise UInt8.add_assoc _ _
  have hlegal : sumScan.kind.Legal (.inRankOrder UInt8) :=
    { lawful := bytePacking_lawful
      associates := hassociates
      reduces := Library.reduces_inRankOrder _ _ _ }
  have hcommutes : sumScan.kind.op.Commutes sumScan.kind.type.handle sumScan.kind.count :=
    Operation.commutes_elementwise UInt8.add_comm _ _
  have hsupports : sumScan.kind.op.Supports sumScan.kind.type sumScan.kind.count :=
    ⟨rfl, bytePacking_sendable.mpr (by decide), by decide⟩
  refine (scans_deliver_iff reachable_triple hworld running_triple {sumScan.kind} ?_).mpr ?_
    [sumScan, sumScan] ?_
  · rintro kind rfl
    exact hlegal
  · rintro kind rfl
    exact Or.inr (Or.inr ⟨hsupports, Operation.agrees_elementwise _ _,
      Or.inr (hcommutes.swaps hassociates)⟩)
  · intro call hcall
    have hsum : call = sumScan := by simpa using hcall
    rw [hsum]
    exact ⟨rfl, fun _ _ => ⟨rfl, rfl⟩⟩

end System

end EsalsaMpi
