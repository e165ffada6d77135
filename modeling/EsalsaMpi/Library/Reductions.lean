import Mathlib.Data.List.Induction
import Mathlib.Data.List.Nodup
import Mathlib.Data.Set.Basic

/-!
# Reductions

A reduction combines the values of a list with an operation
(`Reductions.reduction`).  Where the operation is associative, the values may be
combined in parts first (`reduction_append`, `reduction_flatMap`), and where it is
commutative too, in any order (`reduction_perm`).  All this is needed only for the
values of some set.
-/

namespace Reductions

variable {σ ι κ : Type*} {f : σ → σ → σ} {S : Set σ} {l l' : List σ} {x y : σ}

/-- `x₀ f (x₁ f (⋯ f xₖ))`, if there is a value at all. -/
def reduction (f : σ → σ → σ) : List σ → Option σ
  | [] => none
  | x :: l => (some x).merge f (reduction f l)

/-- `x₀ f (x₁ f (⋯ f xₖ))`. -/
def upTo (f : σ → σ → σ) (x : Nat → σ) : Nat → σ
  | 0 => x 0
  | k + 1 => f (x 0) (upTo f (fun i => x (i + 1)) k)

/-- The operation is associative on `S`. -/
structure Combines (f : σ → σ → σ) (S : Set σ) : Prop where
  closed : ∀ {x y}, x ∈ S → y ∈ S → f x y ∈ S
  assoc : ∀ {x y z}, x ∈ S → y ∈ S → z ∈ S → f (f x y) z = f x (f y z)

@[simp] theorem reduction_nil : reduction f [] = none := rfl

@[simp] theorem reduction_cons (x : σ) (l : List σ) :
    reduction f (x :: l) = (some x).merge f (reduction f l) := rfl

theorem reduction_range (x : Nat → σ) (k : Nat) :
    reduction f ((List.range (k + 1)).map x) = some (upTo f x k) := by
  induction k generalizing x with
  | zero => rfl
  | succ k ih =>
      rw [List.range_succ_eq_map, List.map_cons, List.map_map, reduction_cons]
      show (some (x 0)).merge f (reduction f ((List.range (k + 1)).map fun i => x (i + 1))) = _
      rw [ih]
      rfl

/-- What is accumulated from the right. -/
theorem reduction_accumulated (l : List σ) (x : σ) :
    reduction f (l.reverse ++ [x]) = some (l.foldl (fun acc y => f y acc) x) := by
  induction l using List.reverseRecOn with
  | nil => rfl
  | append_singleton l y ih =>
      rw [List.reverse_append, List.reverse_singleton, List.singleton_append, List.cons_append,
        reduction_cons, ih, List.foldl_append]
      rfl

theorem exists_reduction (hl : l ≠ []) : ∃ x, reduction f l = some x := by
  obtain ⟨y, l, rfl⟩ := List.exists_cons_of_ne_nil hl
  rw [reduction_cons]
  cases reduction f l with
  | none => exact ⟨y, rfl⟩
  | some z => exact ⟨f y z, rfl⟩

theorem reduction_mem (h : Combines f S) (hl : ∀ y ∈ l, y ∈ S) (hx : reduction f l = some x) :
    x ∈ S := by
  induction l generalizing x with
  | nil => cases hx
  | cons y l ih =>
      rw [reduction_cons] at hx
      have hy := hl y List.mem_cons_self
      cases hrest : reduction f l with
      | none =>
          rw [hrest] at hx
          cases hx
          exact hy
      | some z =>
          rw [hrest] at hx
          cases hx
          exact h.closed hy (ih (fun y' hy' => hl y' (List.mem_cons_of_mem y hy')) hrest)

/-- **A list may be reduced in two parts.** -/
theorem reduction_append (h : Combines f S) (hl : ∀ y ∈ l, y ∈ S) (hl' : ∀ y ∈ l', y ∈ S) :
    reduction f (l ++ l') = (reduction f l).merge f (reduction f l') := by
  induction l with
  | nil => rw [List.nil_append, reduction_nil, Option.merge_none_left]
  | cons y l ih =>
      have hy := hl y List.mem_cons_self
      have hrest : ∀ y' ∈ l, y' ∈ S := fun y' hy' => hl y' (List.mem_cons_of_mem y hy')
      rw [List.cons_append, reduction_cons, ih hrest, reduction_cons]
      cases hx : reduction f l with
      | none => rw [Option.merge_none_left, Option.merge_none_right]
      | some x =>
          cases hx' : reduction f l' with
          | none => rw [Option.merge_none_right, Option.merge_none_right]
          | some x' =>
              have hassoc := h.assoc hy (reduction_mem h hrest hx) (reduction_mem h hl' hx')
              simp only [Option.merge_some_some, hassoc]

/-- **Lists may be reduced one by one**, and then their results. -/
theorem reduction_flatMap (h : Combines f S) {parts : List ι} {part : ι → List σ}
    {result : ι → σ} (hpart : ∀ i ∈ parts, ∀ y ∈ part i, y ∈ S)
    (hresult : ∀ i ∈ parts, reduction f (part i) = some (result i)) :
    reduction f (parts.flatMap part) = reduction f (parts.map result) := by
  induction parts with
  | nil => rfl
  | cons i parts ih =>
      have hrest : ∀ j ∈ parts, ∀ y ∈ part j, y ∈ S :=
        fun j hj => hpart j (List.mem_cons_of_mem i hj)
      have hall : ∀ y ∈ parts.flatMap part, y ∈ S := by
        intro y hy
        obtain ⟨j, hj, hy⟩ := List.mem_flatMap.mp hy
        exact hrest j hj y hy
      rw [List.flatMap_cons, reduction_append h (hpart i List.mem_cons_self) hall,
        ih hrest fun j hj => hresult j (List.mem_cons_of_mem i hj),
        hresult i List.mem_cons_self]
      rfl

/-- **The order does not matter** to an operation that is commutative too. -/
theorem reduction_perm (h : Combines f S) (hcomm : ∀ {x y}, x ∈ S → y ∈ S → f x y = f y x)
    (hperm : l.Perm l') (hl : ∀ y ∈ l, y ∈ S) : reduction f l = reduction f l' := by
  induction hperm with
  | nil => rfl
  | cons y _ ih =>
      rw [reduction_cons, reduction_cons, ih fun y' hy' => hl y' (List.mem_cons_of_mem y hy')]
  | swap y z l =>
      have hz : z ∈ S := hl z List.mem_cons_self
      have hy : y ∈ S := hl y (List.mem_cons_of_mem z List.mem_cons_self)
      simp only [reduction_cons]
      cases hx : reduction f l with
      | none => exact congrArg some (hcomm hz hy)
      | some x =>
          have hmem : x ∈ S := reduction_mem h
            (fun y' hy' => hl y' (List.mem_cons_of_mem z (List.mem_cons_of_mem y hy'))) hx
          simp only [Option.merge_some_some]
          rw [← h.assoc hz hy hmem, hcomm hz hy, h.assoc hy hz hmem]
  | trans hperm₁ _ ih₁ ih₂ =>
      exact (ih₁ hl).trans (ih₂ fun y hy => hl y (hperm₁.mem_iff.mpr hy))

theorem reduction_concat (l : List σ) (x : σ) : reduction f (l ++ [x]) = some (l.foldr f x) := by
  induction l with
  | nil => rfl
  | cons y l ih =>
      rw [List.cons_append, reduction_cons, ih]
      rfl

/-- **The order of the values before the last one does not matter** if two of them may
be swapped. -/
theorem foldr_perm (h : Combines f S)
    (hswap : ∀ {x y z}, x ∈ S → y ∈ S → z ∈ S → f x (f y z) = f y (f x z)) (hperm : l.Perm l')
    (hl : ∀ y ∈ l, y ∈ S) (hx : x ∈ S) : l.foldr f x = l'.foldr f x := by
  have hmem : ∀ {l : List σ}, (∀ y ∈ l, y ∈ S) → l.foldr f x ∈ S := by
    intro l hl
    induction l with
    | nil => exact hx
    | cons y l ih =>
        exact h.closed (hl y List.mem_cons_self) (ih fun z hz => hl z (List.mem_cons_of_mem y hz))
  induction hperm with
  | nil => rfl
  | cons y _ ih =>
      rw [List.foldr_cons, List.foldr_cons, ih fun z hz => hl z (List.mem_cons_of_mem y hz)]
  | swap y z l =>
      have hz : z ∈ S := hl z List.mem_cons_self
      have hrest : ∀ w ∈ y :: l, w ∈ S := fun w hw => hl w (List.mem_cons_of_mem z hw)
      simp only [List.foldr_cons]
      exact hswap hz (hrest y List.mem_cons_self)
        (hmem fun w hw => hrest w (List.mem_cons_of_mem y hw))
  | trans hperm₁ _ ih₁ ih₂ =>
      exact (ih₁ hl).trans (ih₂ fun y hy => hl y (hperm₁.mem_iff.mpr hy))

/-- What is accumulated from the right, where the values before the last one may be
swapped. -/
theorem foldl_eq_upTo (h : Combines f S)
    (hswap : ∀ {x y z}, x ∈ S → y ∈ S → z ∈ S → f x (f y z) = f y (f x z)) {x : Nat → σ} {k : Nat}
    (hx : ∀ i ≤ k, x i ∈ S) :
    (List.range k).foldl (fun acc i => f (x i) acc) (x k) = upTo f x k := by
  have hmem : ∀ y ∈ (List.range k).map x, y ∈ S := by
    intro y hy
    obtain ⟨i, hi, rfl⟩ := List.mem_map.mp hy
    exact hx i (List.mem_range.mp hi).le
  have hupTo : some (upTo f x k) = some (((List.range k).map x).foldr f (x k)) := by
    rw [← reduction_range, List.range_succ, List.map_append, List.map_singleton,
      reduction_concat]
  have hperm := foldr_perm h hswap (List.reverse_perm ((List.range k).map x)).symm hmem
    (hx k (Nat.le_refl k))
  rw [Option.some.inj hupTo, hperm, List.foldr_reverse, List.foldl_map]

/-- A list sorted by the values of a function. -/
theorem perm_flatMap_filter [DecidableEq κ] {l : List ι} {keys : List κ} {g : ι → κ}
    (hl : l.Nodup) (hkeys : keys.Nodup) (hg : ∀ i ∈ l, g i ∈ keys) :
    (keys.flatMap fun k => l.filter fun i => g i = k).Perm l := by
  have hnodup : (keys.flatMap fun k => l.filter fun i => g i = k).Nodup := by
    apply List.nodup_flatMap.mpr
    refine ⟨fun k _ => hl.filter _, hkeys.imp ?_⟩
    intro k k' hne i hi hi'
    have hk := of_decide_eq_true (List.mem_filter.mp hi).2
    have hk' := of_decide_eq_true (List.mem_filter.mp hi').2
    exact hne (hk.symm.trans hk')
  apply (List.perm_ext_iff_of_nodup hnodup hl).mpr
  intro i
  constructor
  · intro hi
    obtain ⟨k, _, hi⟩ := List.mem_flatMap.mp hi
    exact List.mem_of_mem_filter hi
  · intro hi
    exact List.mem_flatMap.mpr ⟨g i, hg i hi, List.mem_filter.mpr ⟨hi, decide_eq_true rfl⟩⟩

end Reductions
