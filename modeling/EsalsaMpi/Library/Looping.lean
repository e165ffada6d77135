import Mathlib.Data.List.Count
import Mathlib.Data.List.Infix

/-!
# Processes that go through a program again and again

A process enters its program, takes its actions in order, and returns; then it
may enter again.  `Runs` relates what is left of the program to the number of
times that the process has entered and returned, and `performed` counts how
often it has taken an action in all.

Of actions that occur once in the program, one that comes first is never behind
one that comes later (`performed_le_of_before`), and none is behind the returns
or ahead of the entries by more than the round that is under way.
-/

namespace Looping

variable {α : Type*}

/-- A process with `program` that has entered it `entered` times and returned
`returned` times, with the actions `left` to take in the round under way. -/
structure Runs (program : List α) (entered returned : Nat) (left : List α) : Prop where
  suffix : left <:+ program
  returned_le : returned ≤ entered
  entered_le : entered ≤ returned + 1
  idle : returned = entered → left = []

variable {program left pre post : List α} {entered returned : Nat} {a b : α}

theorem Runs.start (program : List α) : Runs program 0 0 [] :=
  ⟨List.nil_suffix, Nat.le_refl 0, Nat.zero_le 1, fun _ => rfl⟩

/-- The process enters again. -/
theorem Runs.enter (h : Runs program entered returned left) (hidle : returned = entered) :
    Runs program (entered + 1) returned program where
  suffix := List.suffix_rfl
  returned_le := Nat.le_succ_of_le h.returned_le
  entered_le := by omega
  idle := by omega

/-- The process takes an action. -/
theorem Runs.next (h : Runs program entered returned (a :: left)) :
    Runs program entered returned left where
  suffix := (List.suffix_cons a left).trans h.suffix
  returned_le := h.returned_le
  entered_le := h.entered_le
  idle := fun heq => absurd (h.idle heq) (List.cons_ne_nil a left)

/-- The process returns. -/
theorem Runs.leave (h : Runs program entered returned []) (hbusy : returned < entered) :
    Runs program entered (returned + 1) [] where
  suffix := List.nil_suffix
  returned_le := hbusy
  entered_le := Nat.le_succ_of_le h.entered_le
  idle := fun _ => rfl

/-- A process with something left has entered. -/
theorem Runs.entered_pos (h : Runs program entered returned (a :: left)) : 0 < entered := by
  by_contra hzero
  exact absurd (h.idle (by have := h.returned_le; omega)) (List.cons_ne_nil a left)

/-- What is left without an action that is still to come begins behind it. -/
theorem suffix_of_notMem (h : left <:+ pre ++ a :: post) (ha : a ∉ left) : left <:+ post := by
  rcases List.suffix_or_suffix_of_suffix h (List.suffix_append pre (a :: post)) with hpost | hleft
  · rcases List.suffix_cons_iff.mp hpost with rfl | hpost
    · exact absurd List.mem_cons_self ha
    · exact hpost
  · exact absurd (hleft.subset List.mem_cons_self) ha

variable [DecidableEq α]

/-- How often the action has been taken. -/
def performed (program : List α) (entered : Nat) (left : List α) (a : α) : Nat :=
  entered * program.count a - left.count a

/-- The actions left are among those of the rounds so far. -/
theorem Runs.count_le (h : Runs program entered returned left) (a : α) :
    left.count a ≤ entered * program.count a := by
  cases left with
  | nil => exact Nat.zero_le _
  | cons b left =>
      calc (b :: left).count a ≤ program.count a := h.suffix.sublist.count_le a
        _ ≤ entered * program.count a := Nat.le_mul_of_pos_left _ h.entered_pos

theorem performed_enter (h : Runs program entered returned left) (hidle : returned = entered)
    (a : α) : performed program (entered + 1) program a = performed program entered left a := by
  rw [performed, performed, h.idle hidle, Nat.succ_mul, Nat.add_sub_cancel, List.count_nil,
    Nat.sub_zero]

theorem performed_next_self (h : Runs program entered returned (a :: left)) :
    performed program entered left a = performed program entered (a :: left) a + 1 := by
  have hle := h.count_le a
  rw [List.count_cons_self] at hle
  rw [performed, performed, List.count_cons_self]
  omega

theorem performed_next_of_ne (hne : b ≠ a) :
    performed program entered left a = performed program entered (b :: left) a := by
  rw [performed, performed, List.count_cons_of_ne hne]

/-! ## Actions that occur once -/

theorem performed_le_entered (hone : program.count a = 1) :
    performed program entered left a ≤ entered := by
  rw [performed, hone, Nat.mul_one]
  exact Nat.sub_le _ _

section Once

variable (h : Runs program entered returned left) (hone : program.count a = 1)
include h hone

theorem entered_le_performed : entered ≤ performed program entered left a + 1 := by
  have hle := h.suffix.sublist.count_le a
  rw [hone] at hle
  rw [performed, hone, Nat.mul_one]
  omega

theorem returned_le_performed : returned ≤ performed program entered left a := by
  have hle := entered_le_performed h hone
  have hreturned := h.returned_le
  rcases Nat.lt_or_ge returned entered with hlt | hge
  · omega
  · rw [performed, hone, h.idle (Nat.le_antisymm hreturned hge), List.count_nil]
    omega

end Once

/-- Two actions are at most one round apart. -/
theorem performed_le_succ (h : Runs program entered returned left) (ha : program.count a = 1)
    (hb : program.count b = 1) :
    performed program entered left a ≤ performed program entered left b + 1 :=
  Nat.le_trans (performed_le_entered ha) (entered_le_performed h hb)

omit [DecidableEq α] in
/-- What is left behind an action that occurs once. -/
theorem eq_of_cons_suffix (h : a :: left <:+ pre ++ a :: post) (hpre : a ∉ pre) (hpost : a ∉ post) :
    left = post := by
  obtain ⟨front, hfront⟩ := h
  rcases List.suffix_or_suffix_of_suffix ⟨front, hfront⟩ (List.suffix_append pre (a :: post)) with
    hle | hge
  · rcases List.suffix_cons_iff.mp hle with heq | hle
    · exact (List.cons.inj heq).2
    · exact absurd (hle.subset List.mem_cons_self) hpost
  · rcases List.suffix_cons_iff.mp hge with heq | ⟨mid, hmid⟩
    · exact (List.cons.inj heq).2.symm
    · -- then there would be another one before it
      rw [← hmid, ← List.cons_append, ← List.append_assoc, List.append_left_inj] at hfront
      exact absurd (by rw [← hfront]; simp) hpre

/-- **The order of the program.**  An action that comes before another has been
taken as often, at least. -/
theorem performed_le_of_before (h : Runs program entered returned left)
    (hprogram : program = pre ++ b :: post) (hb : program.count b = 1)
    (ha : program.count a = 1) (hbefore : a ∉ post) :
    performed program entered left b ≤ performed program entered left a := by
  by_cases hleft : b ∈ left
  · -- `b` is still to come in this round
    have hcount : left.count b = 1 := by
      have hle := h.suffix.sublist.count_le b
      have hpos := List.count_pos_iff.mpr hleft
      omega
    have hle := entered_le_performed h ha
    rw [performed, hb, hcount]
    omega
  · -- then `a` is not
    have hnot : a ∉ left := fun hmem =>
      hbefore ((suffix_of_notMem (hprogram ▸ h.suffix) hleft).subset hmem)
    rw [performed, performed, ha, hb, List.count_eq_zero_of_not_mem hleft,
      List.count_eq_zero_of_not_mem hnot]

end Looping
