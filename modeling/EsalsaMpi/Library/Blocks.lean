import Mathlib.Algebra.Order.BigOperators.Group.Finset

/-!
# Blocks filed under keys

Blocks `0, 1, …` of given sizes are laid out in one buffer, grouped by key:
first those with key 0, then those with key 1, and so on, and within a key in
the order of the blocks.

* `filed` — how much the first blocks put under a key.
* `offset` — where the segment of a key begins.
* `filedData` — what the first blocks put under a key.

A layout may compute its offsets from one assignment of keys and fill its
segments by another, so the lemmas keep the two apart
(`offset_add_filed_le_sum`, `filed_congr`).
-/

namespace Blocks

variable {α : Type*} {key key' size : Nat → Nat} {data : Nat → List α} {n i j k m : Nat}

/-- What the first `i` blocks put under the key `k`. -/
def filed (key size : Nat → Nat) (i k : Nat) : Nat :=
  ∑ j ∈ Finset.range i, if key j = k then size j else 0

/-- Where the segment of the key `k` begins, for `n` blocks. -/
def offset (key size : Nat → Nat) (n k : Nat) : Nat :=
  ∑ l ∈ Finset.range k, filed key size n l

/-- The data that the first `i` blocks put under the key `k`. -/
def filedData (key : Nat → Nat) (data : Nat → List α) (i k : Nat) : List α :=
  (List.range i).flatMap fun j => if key j = k then data j else []

@[simp] theorem filed_zero : filed key size 0 k = 0 := rfl

theorem filed_succ (key size : Nat → Nat) (i k : Nat) :
    filed key size (i + 1) k = filed key size i k + if key i = k then size i else 0 :=
  Finset.sum_range_succ _ _

theorem filed_mono (key size : Nat → Nat) (k : Nat) (hij : i ≤ j) :
    filed key size i k ≤ filed key size j k := by
  apply Finset.sum_le_sum_of_subset
  exact Finset.range_subset_range.mpr hij

/-- A block has room in the segment of its key. -/
theorem filed_add_le (size : Nat → Nat) (hi : i < n) (hk : key i = k) :
    filed key size i k + size i ≤ filed key size n k := by
  have hle : filed key size (i + 1) k ≤ filed key size n k := filed_mono key size k hi
  rwa [filed_succ, if_pos hk] at hle

/-- Keys that differ only at empty blocks file the same sizes. -/
theorem filed_congr (h : ∀ j < i, key j ≠ key' j → size j = 0) (k : Nat) :
    filed key size i k = filed key' size i k := by
  apply Finset.sum_congr rfl
  intro j hj
  by_cases hkey : key j = key' j
  · rw [hkey]
  · rw [h j (Finset.mem_range.mp hj) hkey, ite_self, ite_self]

@[simp] theorem offset_zero : offset key size n 0 = 0 := rfl

theorem offset_succ (key size : Nat → Nat) (n k : Nat) :
    offset key size n (k + 1) = offset key size n k + filed key size n k :=
  Finset.sum_range_succ _ _

/-- Before the segment of a key lie the blocks with smaller keys. -/
theorem offset_eq (key size : Nat → Nat) (n k : Nat) :
    offset key size n k = ∑ j ∈ Finset.range n, if key j < k then size j else 0 := by
  induction k with
  | zero => simp
  | succ k ih =>
      rw [offset_succ, ih, filed, ← Finset.sum_add_distrib]
      apply Finset.sum_congr rfl
      intro j _
      rcases Nat.lt_trichotomy (key j) k with hlt | heq | hgt
      · simp [hlt, hlt.ne, Nat.lt_succ_of_lt hlt]
      · simp [heq]
      · simp [hgt.not_gt, hgt.ne', show ¬ key j < k + 1 by omega]

/-- The segments of all keys hold all blocks. -/
theorem offset_eq_sum (size : Nat → Nat) (h : ∀ j < n, key j < m) :
    offset key size n m = ∑ j ∈ Finset.range n, size j := by
  rw [offset_eq]
  apply Finset.sum_congr rfl
  intro j hj
  rw [if_pos (h j (Finset.mem_range.mp hj))]

theorem offset_mono (key size : Nat → Nat) (n : Nat) (hkm : k ≤ m) :
    offset key size n k ≤ offset key size n m := by
  apply Finset.sum_le_sum_of_subset
  exact Finset.range_subset_range.mpr hkm

/-- The segment of a key ends before that of a later one begins. -/
theorem offset_add_filed_le (key size : Nat → Nat) (n : Nat) (hkm : k < m) :
    offset key size n k + filed key size n k ≤ offset key size n m := by
  rw [← offset_succ]
  exact offset_mono key size n hkm

/-- What has smaller keys than those of the offsets still fits into the buffer. -/
theorem offset_add_filed_le_sum (size : Nat → Nat) (h : ∀ j < n, key' j ≤ key j) (k : Nat) :
    offset key size n k + filed key' size n k ≤ ∑ j ∈ Finset.range n, size j := by
  rw [offset_eq, filed, ← Finset.sum_add_distrib]
  apply Finset.sum_le_sum
  intro j hj
  have hle := h j (Finset.mem_range.mp hj)
  by_cases hk : key' j = k
  · have hge : ¬ key j < k := by omega
    simp [hk, hge]
  · rw [if_neg hk]
    split <;> omega

theorem filedData_succ (key : Nat → Nat) (data : Nat → List α) (i k : Nat) :
    filedData key data (i + 1) k =
      filedData key data i k ++ if key i = k then data i else [] := by
  simp [filedData, List.range_succ]

theorem length_filedData (h : ∀ j < i, (data j).length = size j) (k : Nat) :
    (filedData key data i k).length = filed key size i k := by
  induction i with
  | zero => rfl
  | succ i ih =>
      rw [filedData_succ, List.length_append, filed_succ,
        ih fun j hj => h j (Nat.lt_succ_of_lt hj)]
      split
      · rw [h i (Nat.lt_succ_self i)]
      · rfl

/-- A block stands behind those filed before it. -/
theorem exists_filedData_eq (data : Nat → List α) (hi : i < n) (hk : key i = k) :
    ∃ rest, filedData key data n k = filedData key data i k ++ data i ++ rest := by
  obtain ⟨d, rfl⟩ : ∃ d, n = i + 1 + d := ⟨n - (i + 1), by omega⟩
  induction d with
  | zero => exact ⟨[], by rw [Nat.add_zero, filedData_succ, if_pos hk, List.append_nil]⟩
  | succ d ih =>
      obtain ⟨rest, hrest⟩ := ih (by omega)
      rw [← Nat.add_assoc, filedData_succ, hrest, List.append_assoc]
      exact ⟨_, rfl⟩

/-- What is filed under a key comes from a block with this key. -/
theorem exists_of_mem_filedData {x : α} (h : x ∈ filedData key data i k) :
    ∃ j < i, key j = k ∧ x ∈ data j := by
  obtain ⟨j, hj, hx⟩ := List.mem_flatMap.mp h
  split at hx
  · exact ⟨j, List.mem_range.mp hj, ‹_›, hx⟩
  · cases hx

end Blocks
