import Mathlib.Logic.Relation

/-!
# Systems that come to their end

The steps of a system are a relation.  `EndsIn` says that every run from a state is finite, with
a bound for all of them, and that wherever no further step is possible, the state is a good one.
So a run may go on in whatever order it likes: it gets to a good state, and no decision on the
way is wrong (`EndsIn.completes`).

* `endsIn_of_measure`: this holds if every step keeps an invariant and makes a number smaller,
  and a state with the invariant is good or can go on;
* `EndsIn.completes`: what has begun can be completed;
* `not_endsIn_of_stuck`: it does not hold where a run gets to a state that no good one can be
  reached from.
-/

namespace Endings

variable {σ : Type*} {r : σ → σ → Prop} {good I : σ → Prop} {s t u : σ} {n : Nat}

/-- A run of so many steps. -/
inductive Run (r : σ → σ → Prop) : Nat → σ → σ → Prop where
  | refl (s : σ) : Run r 0 s s
  | head {n : Nat} {s t u : σ} (hstep : r s t) (hrun : Run r n t u) : Run r (n + 1) s u

/-- No step is possible. -/
def Final (r : σ → σ → Prop) (s : σ) : Prop := ∀ t, ¬ r s t

/-- **Every run comes to its end**, which is good. -/
structure EndsIn (r : σ → σ → Prop) (good : σ → Prop) (s : σ) : Prop where
  bounded : ∃ bound, ∀ n t, Run r n s t → n ≤ bound
  good_of_final : ∀ t, Relation.ReflTransGen r s t → Final r t → good t

theorem exists_run (h : Relation.ReflTransGen r s t) : ∃ n, Run r n s t := by
  induction h using Relation.ReflTransGen.head_induction_on with
  | refl => exact ⟨0, .refl t⟩
  | head hstep _ ih =>
      obtain ⟨n, hrun⟩ := ih
      exact ⟨n + 1, .head hstep hrun⟩

/-- A run that is followed by another. -/
theorem Run.append {m : Nat} (h : Run r n s t) (h' : Run r m t u) : Run r (n + m) s u := by
  induction h with
  | refl s => rwa [Nat.zero_add]
  | head hstep _ ih =>
      rw [Nat.succ_add]
      exact .head hstep (ih h')

/-- What every step keeps. -/
theorem invariant_of_reachable (h : Relation.ReflTransGen r s t) (hs : I s)
    (hkeep : ∀ s t, I s → r s t → I t) : I t := by
  induction h with
  | refl => exact hs
  | tail _ hstep ih => exact hkeep _ _ ih hstep

/-- A run is at most as long as what gets smaller in every step. -/
theorem Run.length_le {μ : σ → Nat} (h : Run r n s t) (hs : I s)
    (hkeep : ∀ s t, I s → r s t → I t ∧ μ t < μ s) : n + μ t ≤ μ s := by
  induction h with
  | refl s => exact Nat.le_of_eq (Nat.zero_add _)
  | head hstep _ ih =>
      obtain ⟨hinv, hlt⟩ := hkeep _ _ hs hstep
      have := ih hinv
      omega

/-- **Progress.**  Each step keeps an invariant and makes a number smaller, and where the
invariant holds the state is good or can go on. -/
theorem endsIn_of_measure {μ : σ → Nat} (hs : I s)
    (hkeep : ∀ s t, I s → r s t → I t ∧ μ t < μ s)
    (hprogress : ∀ s, I s → good s ∨ ∃ t, r s t) : EndsIn r good s where
  bounded := by
    refine ⟨μ s, fun n t hrun => ?_⟩
    have := hrun.length_le hs hkeep
    omega
  good_of_final t hreach hfinal := by
    have hinv := invariant_of_reachable hreach hs fun s t hs hstep => (hkeep s t hs hstep).1
    rcases hprogress t hinv with hgood | ⟨u, hstep⟩
    · exact hgood
    · exact absurd hstep (hfinal u)

/-- What is left of a run that comes to its end does so too. -/
theorem EndsIn.of_reachable (h : EndsIn r good s) (hreach : Relation.ReflTransGen r s t) :
    EndsIn r good t where
  bounded := by
    obtain ⟨bound, hbound⟩ := h.bounded
    obtain ⟨m, hrun⟩ := exists_run hreach
    refine ⟨bound, fun n u hrun' => ?_⟩
    have := hbound _ u (hrun.append hrun')
    omega
  good_of_final u hreach' := h.good_of_final u (hreach.trans hreach')

/-- **What has begun can be completed**, and ends well. -/
theorem EndsIn.completes (h : EndsIn r good s) :
    ∃ t, Relation.ReflTransGen r s t ∧ Final r t ∧ good t := by
  obtain ⟨bound, hbound⟩ := h.bounded
  induction bound generalizing s with
  | zero =>
      have hfinal : Final r s := fun t hstep =>
        absurd (hbound 1 t (.head hstep (.refl t))) (by omega)
      exact ⟨s, .refl, hfinal, h.good_of_final s .refl hfinal⟩
  | succ bound ih =>
      by_cases hfinal : Final r s
      · exact ⟨s, .refl, hfinal, h.good_of_final s .refl hfinal⟩
      · obtain ⟨t, hstep⟩ : ∃ t, r s t := by simpa [Final] using hfinal
        obtain ⟨u, hreach, hend⟩ := ih (h.of_reachable (.single hstep)) fun n u hrun =>
          Nat.le_of_succ_le_succ (hbound (n + 1) u (.head hstep hrun))
        exact ⟨u, hreach.head hstep, hend⟩

/-- **A dead end**: a run gets to a state that cannot become a good one any more. -/
theorem not_endsIn_of_stuck {J : σ → Prop} (hreach : Relation.ReflTransGen r s t) (ht : J t)
    (hkeep : ∀ s t, J s → r s t → J t) (hbad : ∀ s, J s → ¬ good s) : ¬ EndsIn r good s := by
  intro h
  obtain ⟨u, hreach', _, hgood⟩ := (h.of_reachable hreach).completes
  exact hbad u (invariant_of_reachable hreach' ht hkeep) hgood

end Endings
