import Mathlib.Data.List.Basic
import Mathlib.Data.List.Perm.Basic
import Mathlib.Logic.Function.Basic

/-!
# Families of queues

A queue for each key, such as the messages on their way between each pair of
processes.  Elements are appended to one queue (`push`) and taken from the
front of one queue (`pop`); `push_apply` and `pop_apply` say what every queue
of the family then holds.  Several queues together grow by what one of them
grows by: `flatMap_perm_append`.
-/

namespace Queues

variable {κ α : Type*} [DecidableEq κ] {q : κ → List α} {k j : κ} {x : α} {rest : List α}

/-- The queues after `xs` has been appended to that of `k`. -/
def push (q : κ → List α) (k : κ) (xs : List α) : κ → List α :=
  Function.update q k (q k ++ xs)

/-- The queues after the first element has been taken from that of `k`. -/
def pop (q : κ → List α) (k : κ) : κ → List α := Function.update q k (q k).tail

theorem push_apply (q : κ → List α) (k : κ) (xs : List α) (j : κ) :
    push q k xs j = q j ++ if j = k then xs else [] := by
  by_cases h : j = k
  · subst h
    rw [push, Function.update_self, if_pos rfl]
  · rw [push, Function.update_of_ne h, if_neg h, List.append_nil]

@[simp] theorem push_self (q : κ → List α) (k : κ) (xs : List α) : push q k xs k = q k ++ xs :=
  Function.update_self _ _ _

theorem mem_push {xs : List α} : x ∈ push q k xs j ↔ x ∈ q j ∨ (j = k ∧ x ∈ xs) := by
  rw [push_apply]
  by_cases h : j = k <;> simp [h]

theorem pop_apply (h : q k = x :: rest) (j : κ) :
    q j = (if j = k then [x] else []) ++ pop q k j := by
  by_cases hj : j = k
  · subst hj
    rw [pop, Function.update_self, h, if_pos rfl]
    rfl
  · rw [pop, Function.update_of_ne hj, if_neg hj, List.nil_append]

theorem mem_of_mem_pop (h : x ∈ pop q k j) : x ∈ q j := by
  by_cases hj : j = k
  · subst hj
    rw [pop, Function.update_self] at h
    exact List.mem_of_mem_tail h
  · rwa [pop, Function.update_of_ne hj] at h

/-- What is left of a queue was in the queue. -/
theorem mem_of_mem_update {y : α} (hq : q k = x :: rest)
    (hy : y ∈ Function.update q k rest j) : y ∈ q j := by
  by_cases hj : j = k
  · subst hj
    rw [Function.update_self] at hy
    rw [hq]
    exact List.mem_cons_of_mem x hy
  · rwa [Function.update_of_ne hj] at hy

/-- **What several queues hold together**, after one of them has grown. -/
theorem flatMap_perm_append {q q' : κ → List α} {keys : List κ} {xs : List α}
    (hnodup : keys.Nodup) (hk : k ∈ keys) (hself : q' k = q k ++ xs)
    (hother : ∀ j ≠ k, q' j = q j) : (keys.flatMap q').Perm (keys.flatMap q ++ xs) := by
  induction keys with
  | nil => exact absurd hk List.not_mem_nil
  | cons j keys ih =>
      obtain ⟨hj, hnodup⟩ := List.nodup_cons.mp hnodup
      rw [List.flatMap_cons, List.flatMap_cons]
      by_cases hjk : j = k
      · subst hjk
        have hsame : keys.flatMap q' = keys.flatMap q :=
          List.flatMap_congr fun i hi => hother i fun heq => hj (heq ▸ hi)
        rw [hself, hsame, List.append_assoc, List.append_assoc]
        exact List.perm_append_comm.append_left _
      · have htail := ih hnodup ((List.mem_cons.mp hk).resolve_left fun heq => hjk heq.symm)
        rw [hother j hjk, List.append_assoc]
        exact htail.append_left _

end Queues
