import EsalsaMpi.Backend.Member.Manners

/-!
# Calls of single messages

Some calls are made of `do_send` and `do_recv` only.  Such a call is a list of
transfers, one message after the other.
-/

namespace EsalsaMpi

open ProcessNetwork

section Transfers

variable {α : Type} (pk : Nat → Nat → Packing α) (members : List Pid) (n : Nat) (tag : Int)
  (data : Nat → Nat → List α)

/-- A transfer from the first to the second rank of each pair, where `data s d` is what
rank `s` has for rank `d`, and `pk s d` packs it. -/
def transfers (pairs : List (Nat × Nat)) : List (List (Lane × Packet α)) :=
  oneByOne (pairs.map fun t => transfer (pk t.1 t.2) members n tag (data t.1 t.2) t.1 t.2)

/-- The send of a transfer. -/
def sendOf (s d : Nat) : Action Lane (Packet α) :=
  .send (transfer (pk s d) members n tag (data s d) s d).1
    (transfer (pk s d) members n tag (data s d) s d).2

/-- The receive of a transfer. -/
def recvOf (s d : Nat) : Action Lane (Packet α) :=
  .recv (transfer (pk s d) members n tag (data s d) s d).1
    (transfer (pk s d) members n tag (data s d) s d).2

variable {pk members n tag data} {pairs : List (Nat × Nat)}

theorem partOf_transfers (r : Nat) :
    partOf Lane.source Lane.dest r (transfers pk members n tag data pairs) =
      pairs.flatMap fun t =>
        (if t.1 = r then [sendOf pk members n tag data t.1 t.2] else []) ++
          if t.2 = r then [recvOf pk members n tag data t.1 t.2] else [] := by
  rw [transfers, partOf_oneByOne, List.flatMap_map]
  simp only [transfer_source, transfer_dest]
  rfl

theorem inside_transfers (h : ∀ t ∈ pairs, t.1 < members.length ∧ t.2 < members.length) :
    ∀ b ∈ transfers pk members n tag data pairs,
      ∀ t ∈ b, t.1.source < members.length ∧ t.1.dest < members.length := by
  intro b hb t ht
  obtain ⟨_, hmem, rfl⟩ := List.mem_map.mp hb
  obtain ⟨u, hu, rfl⟩ := List.mem_map.mp hmem
  rw [List.mem_singleton.mp ht, transfer_source, transfer_dest]
  exact h u hu

theorem single_transfers (h : ∀ t ∈ pairs, t.1 ≠ t.2) :
    ∀ b ∈ transfers pk members n tag data pairs, ∃ t, b = [t] ∧ t.1.source ≠ t.1.dest := by
  intro b hb
  obtain ⟨_, hmem, rfl⟩ := List.mem_map.mp hb
  obtain ⟨u, hu, rfl⟩ := List.mem_map.mp hmem
  refine ⟨_, rfl, ?_⟩
  rw [transfer_source, transfer_dest]
  exact h u hu

end Transfers

/-- The ranks before `r`, `r` itself, and those after. -/
theorem exists_range_around {size r : Nat} (hr : r < size) :
    ∃ after, List.range size = List.range r ++ r :: after ∧ ∀ i ∈ after, r < i := by
  obtain ⟨k, rfl⟩ : ∃ k, size = r + (k + 1) := ⟨size - (r + 1), by omega⟩
  refine ⟨((List.range k).map Nat.succ).map (r + ·), ?_, ?_⟩
  · rw [List.range_add, List.range_succ_eq_map, List.map_cons, Nat.add_zero]
  · intro i hi
    obtain ⟨j, hj, rfl⟩ := List.mem_map.mp hi
    obtain ⟨j, _, rfl⟩ := List.mem_map.mp hj
    omega

/-- Of a loop in which only the round of `r` does something, this round is left. -/
theorem foldl_only {σ : Type*} (f : σ → σ) {size r : Nat} (hr : r < size) (s : σ) :
    (List.range size).foldl (fun s i => if i = r then f s else s) s = f s := by
  have hothers : ∀ l : List Nat, (∀ i ∈ l, i ≠ r) → ∀ s : σ,
      l.foldl (fun s i => if i = r then f s else s) s = s := by
    intro l hl
    induction l with
    | nil => exact fun _ => rfl
    | cons i l ih =>
        intro s
        rw [List.foldl_cons, if_neg (hl i List.mem_cons_self)]
        exact ih (fun j hj => hl j (List.mem_cons_of_mem i hj)) s
  obtain ⟨after, hrange, hafter⟩ := exists_range_around hr
  rw [hrange, List.foldl_append, List.foldl_cons,
    hothers _ fun i hi => (List.mem_range.mp hi).ne, if_pos rfl,
    hothers _ fun i hi => (hafter i hi).ne']

/-! ### One rank and all others -/

/-- A pair for each rank but `root`. -/
def pairsWith (pair : Nat → Nat × Nat) (size root : Nat) : List (Nat × Nat) :=
  (List.range size).flatMap fun i => if i = root then [] else [pair i]

section PairsWith

variable {β : Type} {pair : Nat → Nat × Nat} {size root r : Nat}

theorem mem_pairsWith {t : Nat × Nat} :
    t ∈ pairsWith pair size root ↔ ∃ i, i < size ∧ i ≠ root ∧ t = pair i := by
  constructor
  · intro ht
    obtain ⟨i, hi, ht⟩ := List.mem_flatMap.mp ht
    by_cases hroot : i = root
    · rw [if_pos hroot] at ht
      cases ht
    · rw [if_neg hroot] at ht
      exact ⟨i, List.mem_range.mp hi, hroot, List.mem_singleton.mp ht⟩
  · intro ⟨i, hi, hroot, heq⟩
    refine List.mem_flatMap.mpr ⟨i, List.mem_range.mpr hi, ?_⟩
    rw [if_neg hroot, heq]
    exact List.mem_singleton_self _

theorem flatMap_pairsWith (f : Nat × Nat → List β) :
    (pairsWith pair size root).flatMap f =
      (List.range size).flatMap fun i => if i = root then [] else f (pair i) := by
  rw [pairsWith, List.flatMap_assoc]
  apply List.flatMap_congr
  intro i _
  by_cases hroot : i = root
  · rw [if_pos hroot, if_pos hroot, List.flatMap_nil]
  · rw [if_neg hroot, if_neg hroot, List.flatMap_singleton]

/-- What matters to one other rank only. -/
theorem flatMap_pairsWith_single {f : Nat × Nat → List β} (hr : r < size) (hroot : r ≠ root)
    (h : ∀ i, i ≠ root → i ≠ r → f (pair i) = []) :
    (pairsWith pair size root).flatMap f = f (pair r) := by
  rw [flatMap_pairsWith, flatMap_range_single r, if_pos hr, if_neg hroot]
  intro i _ hir
  by_cases hiroot : i = root
  · exact if_pos hiroot
  · rw [if_neg hiroot]
    exact h i hiroot hir

end PairsWith

section Parts

variable {α : Type} {pk : Nat → Nat → Packing α} {members : List Pid} {n : Nat} {tag : Int}
  {data : Nat → Nat → List α} {size root r : Nat}

/-- The one that sends to all others. -/
theorem partOf_scatter_root :
    partOf Lane.source Lane.dest root
        (transfers pk members n tag data (pairsWith (fun d => (root, d)) size root)) =
      (List.range size).flatMap fun d =>
        if d = root then [] else [sendOf pk members n tag data root d] := by
  rw [partOf_transfers, flatMap_pairsWith]
  apply List.flatMap_congr
  intro d _
  by_cases hd : d = root
  · rw [if_pos hd, if_pos hd]
  · simp [hd]

/-- Each of the others. -/
theorem partOf_scatter_other (hr : r < size) (hroot : r ≠ root) :
    partOf Lane.source Lane.dest r
        (transfers pk members n tag data (pairsWith (fun d => (root, d)) size root)) =
      [recvOf pk members n tag data root r] := by
  rw [partOf_transfers, flatMap_pairsWith_single hr hroot]
  · simp [Ne.symm hroot]
  · intro i _ hir
    simp [Ne.symm hroot, hir]

/-- The one that receives from all others. -/
theorem partOf_gather_root :
    partOf Lane.source Lane.dest root
        (transfers pk members n tag data (pairsWith (fun s => (s, root)) size root)) =
      (List.range size).flatMap fun s =>
        if s = root then [] else [recvOf pk members n tag data s root] := by
  rw [partOf_transfers, flatMap_pairsWith]
  apply List.flatMap_congr
  intro s _
  by_cases hs : s = root
  · rw [if_pos hs, if_pos hs]
  · simp [hs]

/-- Each of the others. -/
theorem partOf_gather_other (hr : r < size) (hroot : r ≠ root) :
    partOf Lane.source Lane.dest r
        (transfers pk members n tag data (pairsWith (fun s => (s, root)) size root)) =
      [sendOf pk members n tag data r root] := by
  rw [partOf_transfers, flatMap_pairsWith_single hr hroot]
  · simp [Ne.symm hroot]
  · intro i _ hir
    simp [Ne.symm hroot, hir]

end Parts

end EsalsaMpi
