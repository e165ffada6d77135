import EsalsaMpi.Library.Endings
import Mathlib.Algebra.BigOperators.Group.Finset.Piecewise
import Mathlib.Algebra.Order.BigOperators.Group.Finset

/-!
# Systems side by side

Some systems run at once and have nothing to do with each other: a step of the whole is a step of
one of them, and each may take its step whatever the others are doing.

* `SideBySide.reachable`: a run of the whole is a run of each;
* `SideBySide.exists_reachable`: and a run of one is a run of the whole, in which the others wait;
* `SideBySide.endsIn_iff`: every run of the whole comes to its end exactly when all runs of all
  of them do.
-/

namespace Endings

variable {σ τ : Type*}

/-- **The whole `r` is made of `n` systems.**  `view s k` is what system `k` sees of state `s`;
this is so where `I` holds, which the steps keep. -/
structure SideBySide (r : σ → σ → Prop) (part : Nat → τ → τ → Prop) (n : Nat)
    (view : σ → Nat → τ) (I : σ → Prop) : Prop where
  keeps : ∀ s s', I s → r s s' → I s'
  moves : ∀ s s', I s → r s s' → ∃ k < n, part k (view s k) (view s' k) ∧
    ∀ j, j ≠ k → view s' j = view s j
  lifts : ∀ s k t, I s → k < n → part k (view s k) t → ∃ s', r s s' ∧ view s' k = t

namespace SideBySide

variable {r : σ → σ → Prop} {part : Nat → τ → τ → Prop} {n : Nat} {view : σ → Nat → τ}
variable {I : σ → Prop} {s s' : σ} {k : Nat} {t : τ}

/-- A step of the whole is a step of each system, or none. -/
theorem step (h : SideBySide r part n view I) (hs : I s) (hstep : r s s') (k : Nat) :
    Relation.ReflTransGen (part k) (view s k) (view s' k) := by
  obtain ⟨j, _, hpart, hsame⟩ := h.moves s s' hs hstep
  by_cases hk : k = j
  · subst hk
    exact .single hpart
  · rw [hsame k hk]

/-- **A run of the whole** is a run of each system. -/
theorem reachable (h : SideBySide r part n view I) (hs : I s)
    (hrun : Relation.ReflTransGen r s s') (k : Nat) :
    I s' ∧ Relation.ReflTransGen (part k) (view s k) (view s' k) := by
  induction hrun with
  | refl => exact ⟨hs, .refl⟩
  | tail _ hstep ih => exact ⟨h.keeps _ _ ih.1 hstep, ih.2.trans (h.step ih.1 hstep k)⟩

/-- **A run of one system** is a run of the whole. -/
theorem exists_reachable (h : SideBySide r part n view I) (hs : I s) (hk : k < n)
    (hrun : Relation.ReflTransGen (part k) (view s k) t) :
    ∃ s', Relation.ReflTransGen r s s' ∧ view s' k = t := by
  induction hrun with
  | refl => exact ⟨s, .refl, rfl⟩
  | @tail t u _ hstep ih =>
      obtain ⟨s', hreach, rfl⟩ := ih
      obtain ⟨s'', hstep', hview⟩ := h.lifts s' k u (h.reachable hs hreach k).1 hk hstep
      exact ⟨s'', hreach.tail hstep', hview⟩

/-- A run of one system is as long a run of the whole. -/
theorem exists_run (h : SideBySide r part n view I) (hk : k < n) {m : Nat} {u : τ}
    (hrun : Run (part k) m u t) (hs : I s) (hview : view s k = u) : ∃ s', Run r m s s' := by
  induction hrun generalizing s with
  | refl => exact ⟨s, .refl s⟩
  | head hstep _ ih =>
      subst hview
      obtain ⟨s₁, hstep₁, hview₁⟩ := h.lifts s k _ hs hk hstep
      obtain ⟨s', hrun'⟩ := ih (h.keeps _ _ hs hstep₁) hview₁
      exact ⟨s', .head hstep₁ hrun'⟩

/-- The length of a run of the whole is that of its runs together. -/
theorem exists_lengths (h : SideBySide r part n view I) {m : Nat} (hrun : Run r m s s')
    (hs : I s) : ∃ lengths : Nat → Nat, m = ∑ k ∈ Finset.range n, lengths k ∧
      ∀ k < n, Run (part k) (lengths k) (view s k) (view s' k) := by
  induction hrun with
  | refl s => exact ⟨fun _ => 0, by simp, fun k _ => .refl _⟩
  | @head m s t u hstep _ ih =>
      obtain ⟨lengths, hm, hruns⟩ := ih (h.keeps _ _ hs hstep)
      obtain ⟨j, hj, hpart, hsame⟩ := h.moves s t hs hstep
      refine ⟨Function.update lengths j (lengths j + 1), ?_, fun k hk => ?_⟩
      · have hmem : j ∈ Finset.range n := Finset.mem_range.mpr hj
        rw [Finset.sum_update_of_mem hmem, hm, ← Finset.add_sum_erase _ _ hmem,
          Finset.sdiff_singleton_eq_erase]
        omega
      · by_cases hkj : k = j
        · subst hkj
          rw [Function.update_self]
          exact .head hpart (hruns k hk)
        · rw [Function.update_of_ne hkj, ← hsame k hkj]
          exact hruns k hk

/-- A system that cannot go on stays where it is. -/
theorem view_of_final (h : SideBySide r part n view I) (hs : I s)
    (hfinal : Final (part k) (view s k)) (hrun : Relation.ReflTransGen r s s') :
    view s' k = view s k := by
  induction hrun with
  | refl => rfl
  | @tail t u hreach hstep ih =>
      obtain ⟨j, _, hpart, hsame⟩ := h.moves t u (h.reachable hs hreach k).1 hstep
      by_cases hk : k = j
      · subst hk
        rw [ih] at hpart
        exact absurd hpart (hfinal _)
      · rw [hsame k hk, ih]

/-- **Every run of the whole comes to its end** exactly when every run of each system does. -/
theorem endsIn_iff (h : SideBySide r part n view I) (good : Nat → τ → Prop) (hs : I s) :
    EndsIn r (fun s => ∀ k < n, good k (view s k)) s ↔
      ∀ k < n, EndsIn (part k) (good k) (view s k) := by
  constructor
  · intro hends k hk
    refine ⟨?_, fun t hreach hfinal => ?_⟩
    · obtain ⟨bound, hbound⟩ := hends.bounded
      refine ⟨bound, fun m t hrun => ?_⟩
      obtain ⟨s', hrun'⟩ := h.exists_run hk hrun hs rfl
      exact hbound m s' hrun'
    · obtain ⟨s', hreach', rfl⟩ := h.exists_reachable hs hk hreach
      -- the others are let run to their ends, where this one stays as it is
      obtain ⟨u, hrun, _, hgood⟩ := (hends.of_reachable hreach').completes
      have hview := h.view_of_final (h.reachable hs hreach' k).1 hfinal hrun
      rw [← hview]
      exact hgood k hk
  · intro hparts
    refine ⟨?_, fun s' hreach hfinal k hk => ?_⟩
    · choose! bound hbound using fun k hk => (hparts k hk).bounded
      refine ⟨∑ k ∈ Finset.range n, bound k, fun m s' hrun => ?_⟩
      obtain ⟨lengths, rfl, hruns⟩ := h.exists_lengths hrun hs
      exact Finset.sum_le_sum fun k hk =>
        hbound k (Finset.mem_range.mp hk) _ _ (hruns k (Finset.mem_range.mp hk))
    · obtain ⟨hs', hreach'⟩ := h.reachable hs hreach k
      refine (hparts k hk).good_of_final _ hreach' fun t hstep => ?_
      obtain ⟨u, hstep', _⟩ := h.lifts s' k t hs' hk hstep
      exact hfinal u hstep'

end SideBySide

end Endings
