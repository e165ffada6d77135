import Mathlib.Data.List.Basic

/-!
# Memory

A buffer of elements, addressed by number, with copies of whole blocks out of
it (`Memory.read`) and into it (`Memory.write`).
-/

/-- Memory that holds elements of type `α`. -/
def Memory (α : Type*) : Type _ := Nat → α

namespace Memory

variable {α : Type*} {mem : Memory α} {xs ys : List α} {o o' n : Nat}

/-- The `n` elements from `o` on. -/
def read (mem : Memory α) (o n : Nat) : List α := (List.range n).map fun t => mem (o + t)

/-- The memory with the elements `xs` from `o` on. -/
def write (mem : Memory α) (o : Nat) (xs : List α) : Memory α :=
  fun j => if o ≤ j then xs.getD (j - o) (mem j) else mem j

@[simp] theorem length_read (mem : Memory α) (o n : Nat) : (mem.read o n).length = n := by
  simp [read]

theorem mem_read {x : α} (h : x ∈ mem.read o n) : ∃ t < n, x = mem (o + t) := by
  obtain ⟨t, ht, rfl⟩ := List.mem_map.mp h
  exact ⟨t, List.mem_range.mp ht, rfl⟩

theorem read_congr {mem' : Memory α} (h : ∀ t < n, mem (o + t) = mem' (o + t)) :
    mem.read o n = mem'.read o n :=
  List.map_congr_left fun t ht => h t (List.mem_range.mp ht)

theorem read_add (mem : Memory α) (o m n : Nat) :
    mem.read o (m + n) = mem.read o m ++ mem.read (o + m) n := by
  simp [read, List.range_add, Function.comp_def, Nat.add_assoc]

/-- A read inside of another. -/
theorem read_read (mem : Memory α) (o : Nat) {a b m : Nat} (h : a + b ≤ m) :
    mem.read (o + a) b = ((mem.read o m).drop a).take b := by
  obtain ⟨c, rfl⟩ : ∃ c, m = a + b + c := ⟨m - (a + b), by omega⟩
  rw [read_add, read_add, List.append_assoc, List.drop_left' (length_read mem o a),
    List.take_left' (length_read mem (o + a) b)]

/-- An address outside of what is written. -/
theorem write_of_disjoint {j : Nat} (h : j < o ∨ o + xs.length ≤ j) :
    mem.write o xs j = mem j := by
  unfold write
  split
  · rw [List.getD_eq_getElem?_getD, List.getElem?_eq_none (by omega), Option.getD_none]
  · rfl

theorem write_add {t : Nat} (ht : t < xs.length) : mem.write o xs (o + t) = xs[t] := by
  simp [write, ht]

@[simp] theorem read_write (mem : Memory α) (o : Nat) (xs : List α) :
    (mem.write o xs).read o xs.length = xs := by
  apply List.ext_getElem (length_read _ _ _)
  intro t _ ht
  simp only [read, List.getElem_map, List.getElem_range]
  exact write_add ht

/-- A read that a write does not touch. -/
theorem read_write_of_disjoint (h : ∀ t < n, o + t < o' ∨ o' + xs.length ≤ o + t) :
    (mem.write o' xs).read o n = mem.read o n :=
  read_congr fun t ht => write_of_disjoint (h t ht)

@[simp] theorem write_nil (mem : Memory α) (o : Nat) : mem.write o [] = mem := by
  funext j
  exact write_of_disjoint (by simp; omega)

/-- Two writes, one behind the other, are one. -/
theorem write_write (mem : Memory α) (o : Nat) (xs ys : List α) :
    (mem.write o xs).write (o + xs.length) ys = mem.write o (xs ++ ys) := by
  funext j
  rcases Nat.lt_or_ge j o with hlt | hge
  · rw [write_of_disjoint (Or.inl (by omega)), write_of_disjoint (Or.inl hlt),
      write_of_disjoint (Or.inl hlt)]
  · obtain ⟨t, rfl⟩ := Nat.exists_eq_add_of_le hge
    rcases Nat.lt_or_ge t xs.length with hlt | hge
    · rw [write_of_disjoint (Or.inl (by omega)), write_add hlt,
        write_add (by rw [List.length_append]; omega), List.getElem_append_left hlt]
    · obtain ⟨u, rfl⟩ := Nat.exists_eq_add_of_le hge
      rcases Nat.lt_or_ge u ys.length with hlt | hge
      · rw [← Nat.add_assoc, write_add hlt, Nat.add_assoc,
          write_add (by rw [List.length_append]; omega), List.getElem_append_right (by omega)]
        simp
      · rw [write_of_disjoint (Or.inr (by omega)), write_of_disjoint (Or.inr (by omega)),
          write_of_disjoint (Or.inr (by rw [List.length_append]; omega))]

end Memory
