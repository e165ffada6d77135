import Mathlib.Data.List.FinRange
import Mathlib.Data.List.Nodup
import Mathlib.Logic.Function.Basic

/-!
# Tables of handles

A table is an array with a place for every handle below a bound, in which an object stands
under the handle that it has itself.  What is live is kept as a list beside it, and `Holds`
says that the table has exactly the objects of the list, whatever the way in which a free
place is found: an object that comes to a free place (`Holds.add`) has a handle that no live
object has, and a place that is cleared (`Holds.remove`) loses the one object with this
handle.  An object is then found under its handle (`Holds.found`) and nothing is found under
any other (`Holds.missing`).
-/

namespace HandleTables

variable {α : Type*} {n : Nat} {handle : α → Int}

/-- An array with a place for each of `n` handles. -/
abbrev Slots (α : Type*) (n : Nat) := Fin n → Option α

/-- The place of a handle, if it is inside of the array. -/
def place? (n : Nat) (i : Int) : Option (Fin n) :=
  if h : 0 ≤ i ∧ i < n then some ⟨i.toNat, by omega⟩ else none

/-- The first free place from `start`.  The array may be too long to look for it while a
statement about it is checked. -/
@[irreducible] def firstFree (t : Slots α n) (start : Nat) : Option (Fin n) :=
  (List.finRange n).find? fun p => decide (start ≤ p.val) && (t p).isNone

theorem place?_natCast {i : Nat} (h : i < n) : place? n i = some ⟨i, h⟩ := by
  rw [place?, dif_pos ⟨Int.natCast_nonneg i, Int.ofNat_lt.mpr h⟩]
  rfl

theorem place?_eq_none_iff {i : Int} : place? n i = none ↔ i < 0 ∨ (n : Int) ≤ i := by
  unfold place?
  split
  · rename_i h
    simp only [reduceCtorEq, false_iff]
    omega
  · rename_i h
    simp only [true_iff]
    omega

/-- A place belongs to one handle. -/
theorem eq_of_place? {i : Int} {p : Fin n} (h : place? n i = some p) : i = (p.val : Int) := by
  unfold place? at h
  split at h
  · cases h
    simp only
    omega
  · cases h

theorem firstFree_spec {t : Slots α n} {start : Nat} {p : Fin n}
    (h : firstFree t start = some p) : start ≤ p.val ∧ t p = none := by
  unfold firstFree at h
  have hp := List.find?_some h
  rw [Bool.and_eq_true, decide_eq_true_eq, Option.isNone_iff_eq_none] at hp
  exact hp

/-- **The table has the live objects**, each under its own handle. -/
structure Holds (handle : α → Int) (t : Slots α n) (live : List α) : Prop where
  handle_eq : ∀ p x, t p = some x → handle x = (p.val : Int)
  mem_iff : ∀ x, x ∈ live ↔ ∃ p, t p = some x
  nodup : (live.map handle).Nodup

namespace Holds

variable {t : Slots α n} {live : List α} {p : Fin n} {x : α} {i : Int}

theorem empty : Holds handle (fun _ => none : Slots α n) [] where
  handle_eq := nofun
  mem_iff := fun x => by simp
  nodup := List.nodup_nil

/-- A live object is found under its handle. -/
theorem found (h : Holds handle t live) (hx : x ∈ live) :
    ∃ p, place? n (handle x) = some p ∧ t p = some x := by
  obtain ⟨p, hp⟩ := (h.mem_iff x).mp hx
  refine ⟨p, ?_, hp⟩
  rw [h.handle_eq p x hp]
  exact place?_natCast p.isLt

/-- Nothing is found under the handle of no live object. -/
theorem missing (h : Holds handle t live) (hi : ∀ x ∈ live, handle x ≠ i)
    (hp : place? n i = some p) : t p = none := by
  cases hslot : t p with
  | none => rfl
  | some x =>
      have hhandle := h.handle_eq p x hslot
      exact absurd (hhandle.trans (eq_of_place? hp).symm) (hi x ((h.mem_iff x).mpr ⟨p, hslot⟩))

/-- What is found under a handle is live and has this handle. -/
theorem mem_of_place (h : Holds handle t live) (hp : place? n i = some p)
    (hx : t p = some x) : x ∈ live ∧ handle x = i :=
  ⟨(h.mem_iff x).mpr ⟨p, hx⟩, (h.handle_eq p x hx).trans (eq_of_place? hp).symm⟩

/-- No live object has the handle of a free place. -/
theorem handle_ne (h : Holds handle t live) (hp : t p = none) {y : α} (hy : y ∈ live) :
    handle y ≠ (p.val : Int) := by
  intro heq
  obtain ⟨q, hq⟩ := (h.mem_iff y).mp hy
  have hplaces : (q.val : Int) = (p.val : Int) := (h.handle_eq q y hq).symm.trans heq
  have hqp : q = p := Fin.ext (Int.ofNat_inj.mp hplaces)
  rw [hqp, hp] at hq
  cases hq

/-- **A new object** comes to a free place. -/
theorem add (h : Holds handle t live) (hp : t p = none) (hx : handle x = (p.val : Int)) :
    Holds handle (Function.update t p (some x)) (live ++ [x]) := by
  constructor
  · intro q y hq
    by_cases hqp : q = p
    · subst hqp
      rw [Function.update_self] at hq
      cases hq
      exact hx
    · rw [Function.update_of_ne hqp] at hq
      exact h.handle_eq q y hq
  · intro y
    rw [List.mem_append, List.mem_singleton, h.mem_iff]
    constructor
    · rintro (⟨q, hq⟩ | rfl)
      · have hqp : q ≠ p := fun heq => by rw [heq, hp] at hq; cases hq
        exact ⟨q, by rw [Function.update_of_ne hqp]; exact hq⟩
      · exact ⟨p, Function.update_self ..⟩
    · rintro ⟨q, hq⟩
      by_cases hqp : q = p
      · subst hqp
        rw [Function.update_self] at hq
        cases hq
        exact Or.inr rfl
      · rw [Function.update_of_ne hqp] at hq
        exact Or.inl ⟨q, hq⟩
  · rw [List.map_append, List.map_singleton]
    refine List.nodup_append.mpr ⟨h.nodup, List.nodup_singleton _, ?_⟩
    intro a ha b hb heq
    obtain ⟨y, hy, rfl⟩ := List.mem_map.mp ha
    rw [List.mem_singleton.mp hb, hx] at heq
    exact h.handle_ne hp hy heq

/-- **A place that is cleared** loses the object with its handle. -/
theorem remove (h : Holds handle t live) (hp : place? n i = some p) :
    Holds handle (Function.update t p none) (live.filter fun y => handle y ≠ i) := by
  have hi := eq_of_place? hp
  constructor
  · intro q y hq
    by_cases hqp : q = p
    · subst hqp
      rw [Function.update_self] at hq
      cases hq
    · rw [Function.update_of_ne hqp] at hq
      exact h.handle_eq q y hq
  · intro y
    rw [List.mem_filter, decide_eq_true_eq, h.mem_iff]
    constructor
    · rintro ⟨⟨q, hq⟩, hne⟩
      have hqp : q ≠ p := by
        intro heq
        rw [h.handle_eq q y hq, heq] at hne
        exact hne hi.symm
      exact ⟨q, by rw [Function.update_of_ne hqp]; exact hq⟩
    · rintro ⟨q, hq⟩
      by_cases hqp : q = p
      · subst hqp
        rw [Function.update_self] at hq
        cases hq
      · rw [Function.update_of_ne hqp] at hq
        refine ⟨⟨q, hq⟩, fun heq => hqp (Fin.ext (Int.ofNat_inj.mp ?_))⟩
        rw [h.handle_eq q y hq] at heq
        exact heq.trans hi
  · exact h.nodup.sublist ((List.filter_sublist).map handle)

/-- Where no live object has the handle, freeing it changes nothing. -/
theorem filter_eq (hi : ∀ x ∈ live, handle x ≠ i) :
    (live.filter fun y => handle y ≠ i) = live :=
  List.filter_eq_self.mpr fun y hy => decide_eq_true (hi y hy)

end Holds

end HandleTables
