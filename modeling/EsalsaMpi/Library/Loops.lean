import Mathlib.Logic.Basic

/-!
# Loops

A loop goes from state to state until it returns.  `run` gives it a number of
rounds, and `Returns` asks for a number that is enough.

* `stops_of_measure`: a loop returns if a number gets smaller in every round;
* `not_stops`: a loop does not return if it can go on wherever it gets to;
* `Returns.invariant`: what every round keeps holds where the loop returns.
-/

namespace Loops

variable {σ ρ : Type*} (step : σ → σ ⊕ ρ) {s s' : σ} {r r' : ρ}

/-- What the loop returns within some rounds, if it does. -/
def run : Nat → σ → Option ρ
  | 0, _ => none
  | n + 1, s =>
    match step s with
    | .inl s' => run n s'
    | .inr r => some r

/-- The loop returns `r`. -/
def Returns (s : σ) (r : ρ) : Prop := ∃ n, run step n s = some r

/-- The loop returns. -/
def Stops (s : σ) : Prop := ∃ r, Returns step s r

variable {step}

theorem run_succ (n : Nat) (s : σ) :
    run step (n + 1) s =
      match step s with
      | .inl s' => run step n s'
      | .inr r => some r := rfl

theorem Returns.last (h : step s = .inr r) : Returns step s r :=
  ⟨1, by rw [run_succ, h]⟩

theorem Returns.next (h : step s = .inl s') (hr : Returns step s' r) : Returns step s r := by
  obtain ⟨n, hn⟩ := hr
  exact ⟨n + 1, by rw [run_succ, h]; exact hn⟩

/-- A loop that returns does so now or later. -/
theorem Returns.cases (h : Returns step s r) :
    step s = .inr r ∨ ∃ s', step s = .inl s' ∧ Returns step s' r := by
  obtain ⟨n, hn⟩ := h
  cases n with
  | zero => cases hn
  | succ n =>
      rw [run_succ] at hn
      cases hstep : step s with
      | inl s' =>
          rw [hstep] at hn
          exact Or.inr ⟨s', rfl, n, hn⟩
      | inr r' =>
          rw [hstep] at hn
          cases hn
          exact Or.inl rfl

/-- The loop returns what it returns after a round. -/
theorem returns_next_iff (h : step s = .inl s') : Returns step s r ↔ Returns step s' r := by
  constructor
  · intro hr
    rcases hr.cases with hnow | ⟨t, ht, hr⟩
    · rw [h] at hnow
      cases hnow
    · rw [h] at ht
      cases ht
      exact hr
  · exact Returns.next h

/-- **What every round keeps** holds where the loop returns. -/
theorem Returns.invariant {I : σ → Prop} (h : Returns step s r) (hs : I s)
    (hkeep : ∀ s s', I s → step s = .inl s' → I s') : ∃ s', I s' ∧ step s' = .inr r := by
  obtain ⟨n, hn⟩ := h
  induction n generalizing s with
  | zero => cases hn
  | succ n ih =>
      rw [run_succ] at hn
      cases hstep : step s with
      | inl s' =>
          rw [hstep] at hn
          exact ih (hkeep s s' hs hstep) hn
      | inr r' =>
          rw [hstep] at hn
          cases hn
          exact ⟨s, hs, hstep⟩

/-- A loop returns one thing. -/
theorem Returns.unique (h : Returns step s r) (h' : Returns step s r') : r = r' := by
  obtain ⟨n, hn⟩ := h
  induction n generalizing s with
  | zero => cases hn
  | succ n ih =>
      rw [run_succ] at hn
      rcases h'.cases with hnow | ⟨s', hlater, hr'⟩
      · rw [hnow] at hn
        exact (Option.some.inj hn).symm
      · rw [hlater] at hn
        exact ih hr' hn

/-- **A loop returns** if a number gets smaller in every round. -/
theorem stops_of_measure {I : σ → Prop} (μ : σ → Nat) (hs : I s)
    (hkeep : ∀ s s', I s → step s = .inl s' → I s' ∧ μ s' < μ s) : Stops step s := by
  generalize hn : μ s = n
  induction n using Nat.strongRecOn generalizing s with
  | ind n ih =>
      cases hstep : step s with
      | inl s' =>
          obtain ⟨hs', hlt⟩ := hkeep s s' hs hstep
          obtain ⟨r, hr⟩ := ih (μ s') (hn ▸ hlt) hs' rfl
          exact ⟨r, hr.next hstep⟩
      | inr r => exact ⟨r, .last hstep⟩

/-- **A loop does not return** if it can go on wherever it gets to. -/
theorem not_stops {J : σ → Prop} (hs : J s)
    (hgo : ∀ s, J s → ∃ s', step s = .inl s' ∧ J s') : ¬ Stops step s := by
  rintro ⟨r, h⟩
  have hkeep : ∀ s s', J s → step s = .inl s' → J s' := by
    intro s s' hs hstep
    obtain ⟨t, ht, hJ⟩ := hgo s hs
    rw [hstep] at ht
    cases ht
    exact hJ
  obtain ⟨t, hJ, hlast⟩ := h.invariant hs hkeep
  obtain ⟨s', hnext, _⟩ := hgo t hJ
  rw [hlast] at hnext
  cases hnext

end Loops
