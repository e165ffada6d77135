import Mathlib.Algebra.BigOperators.Group.Finset.Basic

/-!
# What is left, part by part

The steps that are left in a system are counted part by part: a family has a share for what each
of its parts holds, and a step changes one part of a family, or few.  `sum_add_eq` and
`total_update` say what this does to the whole.
-/

namespace Shares

variable {ι β : Type*} [DecidableEq ι] {parts : Finset ι} {k : ι}

/-- One part of a sum changes. -/
theorem sum_add_eq {f g : ι → Nat} (hk : k ∈ parts) (hother : ∀ j ≠ k, g j = f j) :
    ∑ j ∈ parts, g j + f k = ∑ j ∈ parts, f j + g k := by
  have hrest : ∑ j ∈ parts.erase k, g j = ∑ j ∈ parts.erase k, f j :=
    Finset.sum_congr rfl fun j hj => hother j (Finset.ne_of_mem_erase hj)
  rw [← Finset.add_sum_erase parts g hk, ← Finset.add_sum_erase parts f hk, hrest]
  omega

/-- The shares of a family. -/
def total (parts : Finset ι) (share : β → Nat) (family : ι → β) : Nat :=
  ∑ j ∈ parts, share (family j)

/-- **A part gets another value.** -/
theorem total_update (hk : k ∈ parts) (share : β → Nat) (family : ι → β) (value : β) :
    total parts share (Function.update family k value) + share (family k) =
      total parts share family + share value := by
  have hsum := sum_add_eq (f := fun j => share (family j))
    (g := fun j => share (Function.update family k value j)) hk fun j hj => by
      rw [Function.update_of_ne hj]
  rwa [Function.update_self] at hsum

/-- What is not a part does not count. -/
theorem total_update_of_notMem (hk : k ∉ parts) (share : β → Nat) (family : ι → β) (value : β) :
    total parts share (Function.update family k value) = total parts share family := by
  refine Finset.sum_congr rfl fun j hj => ?_
  rw [Function.update_of_ne]
  rintro rfl
  exact hk hj

end Shares
