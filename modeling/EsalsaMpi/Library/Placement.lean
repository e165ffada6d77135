import Mathlib.Data.List.Nodup
import Mathlib.Logic.Function.Basic
import Mathlib.Logic.Nontrivial.Defs

/-!
# Data in scattered places

The parts of some data need not lie next to each other in memory.  Data is loaded
from a list of places and stored to one (`Placement.load`, `Placement.store`), and
`Placement.copy` copies a block of memory as it is, whatever lies in it.

A copy moves data from some places of one memory to some places of another if and only
if the places are the same relative to the start of the block, and inside of it
(`load_copy_iff`).  It does nothing else if and only if they are the whole block
(`copy_eq_store_iff`).
-/

namespace Placement

section Scattered

variable {ι α β : Type*} {mem mem' : ι → α} {places places' : List ι} {xs : List α} {a : ι}

/-- The data in some places. -/
def load (mem : ι → α) (places : List ι) : List α := places.map mem

@[simp] theorem length_load (mem : ι → α) (places : List ι) :
    (load mem places).length = places.length := List.length_map _

theorem load_congr (h : ∀ a ∈ places, mem a = mem' a) : load mem places = load mem' places :=
  List.map_congr_left h

theorem load_map {κ : Type*} (mem : ι → α) (f : κ → ι) (l : List κ) :
    load mem (l.map f) = l.map fun k => mem (f k) := List.map_map

variable [DecidableEq ι]

/-- The memory with data in some places. -/
def store (mem : ι → α) (places : List ι) (xs : List α) : ι → α :=
  (places.zip xs).foldl (fun mem t => Function.update mem t.1 t.2) mem

theorem store_cons (mem : ι → α) (a : ι) (places : List ι) (x : α) (xs : List α) :
    store mem (a :: places) (x :: xs) = store (Function.update mem a x) places xs := rfl

/-- All other places are as they were. -/
theorem store_of_notMem (h : a ∉ places) : store mem places xs a = mem a := by
  induction places generalizing mem xs with
  | nil => rfl
  | cons b places ih =>
      cases xs with
      | nil => rfl
      | cons x xs =>
          have hab : a ≠ b := by
            rintro rfl
            exact h List.mem_cons_self
          rw [store_cons, ih fun ha => h (List.mem_cons_of_mem b ha), Function.update_of_ne hab]

/-- **What is stored** is in its places. -/
theorem load_store (hnodup : places.Nodup) (hlength : places.length = xs.length) :
    load (store mem places xs) places = xs := by
  induction places generalizing mem xs with
  | nil => exact (List.eq_nil_of_length_eq_zero hlength.symm).symm
  | cons a places ih =>
      cases xs with
      | nil => cases hlength
      | cons x xs =>
          obtain ⟨ha, hnodup⟩ := List.nodup_cons.mp hnodup
          have hfirst : store (Function.update mem a x) places xs a = x := by
            rw [store_of_notMem ha, Function.update_self]
          rw [store_cons, load, List.map_cons, hfirst, ← load, ih hnodup (Nat.succ.inj hlength)]

/-- What is in a place then does not depend on what is in the others now. -/
theorem store_congr (h : mem a = mem' a) : store mem places xs a = store mem' places xs a := by
  induction places generalizing mem mem' xs with
  | nil => exact h
  | cons b places ih =>
      cases xs with
      | nil => exact h
      | cons x xs =>
          rw [store_cons, store_cons]
          apply ih
          by_cases hab : a = b
          · rw [hab, Function.update_self, Function.update_self]
          · rw [Function.update_of_ne hab, Function.update_of_ne hab, h]

end Scattered

section Blocks

variable {α : Type*} {mem mem' : Int → α} {start dst src a : Int} {size : Nat}

/-- The places from `start` on. -/
def block (start : Int) (size : Nat) : List Int := (List.range size).map fun k : Nat => start + k

theorem mem_block : a ∈ block start size ↔ start ≤ a ∧ a < start + size := by
  constructor
  · intro ha
    obtain ⟨k, hk, rfl⟩ := List.mem_map.mp ha
    have := List.mem_range.mp hk
    omega
  · rintro ⟨hle, hlt⟩
    exact List.mem_map.mpr ⟨(a - start).toNat, List.mem_range.mpr (by omega), by omega⟩

theorem nodup_block (start : Int) (size : Nat) : (block start size).Nodup := by
  refine List.nodup_range.map ?_
  intro i j hij
  have : start + (i : Int) = start + (j : Int) := hij
  omega

theorem block_add (start : Int) (size size' : Nat) :
    block start (size + size') = block start size ++ (block 0 size').map (start + size + ·) := by
  rw [block, List.range_add, List.map_append, List.map_map, block, block, List.map_map]
  congr 1
  apply List.map_congr_left
  intro k _
  simp only [Function.comp_apply, Int.natCast_add]
  omega

/-- `memcpy` of `size` places from `src` in `mem'` to `dst` in `mem`. -/
def copy (mem : Int → α) (dst : Int) (mem' : Int → α) (src : Int) (size : Nat) : Int → α :=
  store mem (block dst size) (load mem' (block src size))

theorem copy_inside {k : Int} (h : 0 ≤ k ∧ k < size) :
    copy mem dst mem' src size (dst + k) = mem' (src + k) := by
  have hload : load (copy mem dst mem' src size) (block dst size) = load mem' (block src size) :=
    load_store (nodup_block dst size) (by simp [block])
  simp only [load, block, List.map_map] at hload
  have hk := List.map_inj_left.mp hload k.toNat (List.mem_range.mpr (by omega))
  simp only [Function.comp_apply, Int.toNat_of_nonneg h.1] at hk
  exact hk

theorem copy_outside {k : Int} (h : ¬ (0 ≤ k ∧ k < size)) :
    copy mem dst mem' src size (dst + k) = mem (dst + k) := by
  apply store_of_notMem
  rw [mem_block]
  omega

variable (dst src size) in
/-- The data that is at some offsets behind `src` is at some offsets behind `dst` after
the copy, whatever the memories hold, if and only if the offsets are the same and inside
of what is copied. -/
theorem load_copy_iff [Nontrivial α] {offsets offsets' : List Int}
    (hlength : offsets.length = offsets'.length) :
    (∀ mem mem' : Int → α, load (copy mem dst mem' src size) (offsets.map (dst + ·)) =
        load mem' (offsets'.map (src + ·))) ↔
      offsets = offsets' ∧ ∀ o ∈ offsets, 0 ≤ o ∧ o < size := by
  constructor
  · intro h
    obtain ⟨x, y, hxy⟩ := exists_pair_ne α
    -- `y` is only in the place that one offset of the source stands for
    have hplace : ∀ (k : Nat) o o', offsets[k]? = some o → offsets'[k]? = some o' →
        o = o' ∧ 0 ≤ o ∧ o < size := by
      intro k o o' hk hk'
      have hsame := congrArg (fun l => l[k]?)
        (h (fun _ => x) fun a => if a = src + o' then y else x)
      simp only [load, List.getElem?_map, hk, hk', Option.map_some, if_true,
        Option.some.injEq] at hsame
      by_cases hin : 0 ≤ o ∧ o < size
      · rw [copy_inside hin] at hsame
        by_cases ho : o = o'
        · exact ⟨ho, hin⟩
        · rw [if_neg (by omega)] at hsame
          exact absurd hsame hxy
      · rw [copy_outside hin] at hsame
        exact absurd hsame hxy
    have hboth : ∀ k, (hk : k < offsets.length) → (hk' : k < offsets'.length) →
        offsets[k] = offsets'[k] ∧ 0 ≤ offsets[k] ∧ offsets[k] < size := fun k hk hk' =>
      hplace k _ _ (List.getElem?_eq_getElem hk) (List.getElem?_eq_getElem hk')
    refine ⟨List.ext_getElem hlength fun k hk hk' => (hboth k hk hk').1, ?_⟩
    intro o ho
    obtain ⟨k, hk, rfl⟩ := List.getElem_of_mem ho
    exact (hboth k hk (hlength ▸ hk)).2
  · rintro ⟨rfl, hin⟩ mem mem'
    rw [load_map, load_map]
    exact List.map_congr_left fun o ho => copy_inside (hin o ho)

variable (dst src size) in
/-- The copy is the store of the data that is at some offsets behind `src` to some
offsets behind `dst`, if and only if the offsets are the same and all that is copied. -/
theorem copy_eq_store_iff [Nontrivial α] {offsets offsets' : List Int} (hnodup : offsets.Nodup)
    (hlength : offsets.length = offsets'.length) :
    (∀ mem mem' : Int → α, copy mem dst mem' src size =
        store mem (offsets.map (dst + ·)) (load mem' (offsets'.map (src + ·)))) ↔
      offsets = offsets' ∧ ∀ o, o ∈ offsets ↔ 0 ≤ o ∧ o < size := by
  have hstore : ∀ mem mem' : Int → α,
      load (store mem (offsets.map (dst + ·)) (load mem' (offsets'.map (src + ·))))
        (offsets.map (dst + ·)) = load mem' (offsets'.map (src + ·)) := fun mem mem' =>
    load_store (hnodup.map fun _ _ h => Int.add_left_cancel h) (by
      rw [length_load, List.length_map, List.length_map, hlength])
  have hshift : ∀ {o : Int}, dst + o ∈ offsets.map (dst + ·) → o ∈ offsets := by
    intro o ho
    obtain ⟨o', ho', heq⟩ := List.mem_map.mp ho
    rwa [← Int.add_left_cancel heq]
  constructor
  · intro h
    obtain ⟨hsame, hin⟩ := (load_copy_iff dst src size hlength).mp fun mem mem' => by
      rw [h]
      exact hstore mem mem'
    refine ⟨hsame, fun o => ⟨hin o, fun ho => ?_⟩⟩
    obtain ⟨x, y, hxy⟩ := exists_pair_ne α
    by_contra hnot
    have hplace := congrFun (h (fun _ => x) fun _ => y) (dst + o)
    rw [copy_inside ho, store_of_notMem fun hmem => hnot (hshift hmem)] at hplace
    exact hxy hplace.symm
  · rintro ⟨rfl, hall⟩ mem mem'
    funext a
    obtain ⟨k, rfl⟩ : ∃ k, a = dst + k := ⟨a - dst, by omega⟩
    by_cases hk : 0 ≤ k ∧ k < size
    · have hload := (load_map _ _ _).symm.trans ((hstore mem mem').trans (load_map _ _ _))
      rw [copy_inside hk]
      exact (List.map_inj_left.mp hload k ((hall k).mpr hk)).symm
    · rw [copy_outside hk, store_of_notMem fun hmem => hk ((hall k).mp (hshift hmem))]

end Blocks

end Placement
