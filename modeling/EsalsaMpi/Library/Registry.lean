import Mathlib.Data.List.Range
import Mathlib.Data.List.Nodup

/-!
# Registries

A list of slots in which an object is found under its number, the place of its
slot.  A new object gets the number of the first place behind the list, and a
slot that is cleared stays empty, so the numbers handed out count up from the
length at the start (`Issued`) and none comes twice, whatever is cleared.
-/

namespace Registry

variable {α : Type*} {number : α → Nat} {slots : List (Option α)} {base n : Nat} {x : α}
  {handed : List Nat}

/-- Every object stands in the slot of its number. -/
def Numbered (number : α → Nat) (slots : List (Option α)) : Prop :=
  ∀ (i : Nat) x, slots[i]? = some (some x) → number x = i

/-- The numbers that have been handed out since the registry had `base` slots. -/
structure Issued (base : Nat) (slots : List (Option α)) (handed : List Nat) : Prop where
  base_le : base ≤ slots.length
  handed_eq : handed = List.range' base (slots.length - base)

/-- A new object at the end, under the next number. -/
theorem Numbered.append (h : Numbered number slots) (hx : number x = slots.length) :
    Numbered number (slots ++ [some x]) := by
  intro i y hy
  rcases Nat.lt_trichotomy i slots.length with hi | hi | hi
  · rw [List.getElem?_append_left hi] at hy
    exact h i y hy
  · subst hi
    rw [List.getElem?_concat_length] at hy
    cases hy
    exact hx
  · rw [List.getElem?_eq_none (by rw [List.length_append, List.length_singleton]; omega)] at hy
    cases hy

/-- Another version of an object in its slot. -/
theorem Numbered.set (h : Numbered number slots) (hx : number x = n) :
    Numbered number (slots.set n (some x)) := by
  intro i y hy
  rw [List.getElem?_set] at hy
  split at hy
  · rename_i hi
    split at hy
    · cases hy
      exact hx.trans hi
    · cases hy
  · exact h i y hy

/-- A slot is cleared. -/
theorem Numbered.clear (h : Numbered number slots) (n : Nat) :
    Numbered number (slots.set n none) := by
  intro i y hy
  rw [List.getElem?_set] at hy
  split at hy
  · split at hy <;> cases hy
  · exact h i y hy

/-- A new object takes the next number. -/
theorem Issued.append (h : Issued base slots handed) (slot : Option α) :
    Issued base (slots ++ [slot]) (handed ++ [slots.length]) := by
  obtain ⟨hbase, hhanded⟩ := h
  have hlength : (slots ++ [slot]).length - base = slots.length - base + 1 := by
    rw [List.length_append, List.length_singleton]
    omega
  refine ⟨by rw [List.length_append]; omega, ?_⟩
  rw [hlength, List.range'_concat, ← hhanded]
  have hlast : base + 1 * (slots.length - base) = slots.length := by omega
  rw [hlast]

/-- What happens inside the slots hands out nothing. -/
theorem Issued.set (h : Issued base slots handed) (n : Nat) (slot : Option α) :
    Issued base (slots.set n slot) handed :=
  ⟨by rw [List.length_set]; exact h.base_le, by rw [List.length_set]; exact h.handed_eq⟩

/-- **No number is handed out twice.** -/
theorem Issued.nodup (h : Issued base slots handed) : handed.Nodup := by
  rw [h.handed_eq]
  exact List.nodup_range'

/-- The numbers handed out are those of the slots that have come since. -/
theorem Issued.mem_iff (h : Issued base slots handed) :
    n ∈ handed ↔ base ≤ n ∧ n < slots.length := by
  have hbase := h.base_le
  rw [h.handed_eq, List.mem_range'_1]
  omega

end Registry
