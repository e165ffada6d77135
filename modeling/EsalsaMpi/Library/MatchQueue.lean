import Mathlib.Data.List.Nodup

/-!
# Queues that are searched

A queue of which a reader removes the first entry that satisfies a predicate.
`takeFirst_eq_some_iff` says what is removed and what stays; the other lemmas
follow one predicate through a removal made for another.

An `Engine` has two such queues: readers that wait for an entry, and entries
that wait for a reader.  Whoever comes takes the first of the other side that
it matches, and waits when there is none.
-/

namespace MatchQueue

variable {α : Type*} {p q : α → Bool} {a : α} {l l' : List α}

/-- Remove the first entry that satisfies `p`. -/
def takeFirst (p : α → Bool) : List α → Option (α × List α)
  | [] => none
  | a :: l => if p a then some (a, l) else (takeFirst p l).map fun r => (r.1, a :: r.2)

@[simp] theorem takeFirst_nil : takeFirst p [] = none := rfl

theorem takeFirst_cons :
    takeFirst p (a :: l) =
      if p a then some (a, l) else (takeFirst p l).map fun r => (r.1, a :: r.2) := rfl

/-- Nothing is removed from a queue in which nothing matches. -/
theorem takeFirst_eq_none_iff : takeFirst p l = none ↔ ∀ a ∈ l, p a = false := by
  induction l with
  | nil => simp
  | cons a l ih =>
      rw [takeFirst_cons]
      split
      · next ha => simp [ha]
      · next ha => simp [ih, ha]

/-- What is removed stood behind entries that do not match. -/
theorem exists_of_takeFirst (h : takeFirst p l = some (a, l')) :
    ∃ l₁ l₂, l = l₁ ++ a :: l₂ ∧ l' = l₁ ++ l₂ ∧ p a = true ∧ ∀ b ∈ l₁, p b = false := by
  induction l generalizing l' with
  | nil => cases h
  | cons b l ih =>
      rw [takeFirst_cons] at h
      split at h
      · next hb =>
        cases h
        exact ⟨[], l, rfl, rfl, hb, nofun⟩
      · next hb =>
        obtain ⟨⟨c, l₀⟩, hl₀, hc⟩ := Option.map_eq_some_iff.mp h
        cases hc
        obtain ⟨l₁, l₂, rfl, rfl, ha, hnone⟩ := ih hl₀
        refine ⟨b :: l₁, l₂, rfl, rfl, ha, ?_⟩
        intro c hc
        rcases List.mem_cons.mp hc with rfl | hc
        · exact Bool.eq_false_iff.mpr hb
        · exact hnone c hc

/-- An entry that matches, behind entries that do not, is removed. -/
theorem takeFirst_middle {l₁ l₂ : List α} (ha : p a = true) (hnone : ∀ b ∈ l₁, p b = false) :
    takeFirst p (l₁ ++ a :: l₂) = some (a, l₁ ++ l₂) := by
  induction l₁ with
  | nil =>
      rw [List.nil_append, takeFirst_cons, if_pos ha]
      rfl
  | cons c l₁ ih =>
      obtain ⟨hc, hnone⟩ := List.forall_mem_cons.mp hnone
      rw [List.cons_append, takeFirst_cons, hc, ih hnone]
      rfl

/-- **What is removed** is the first entry that matches; the rest stays as it
is. -/
theorem takeFirst_eq_some_iff :
    takeFirst p l = some (a, l') ↔
      ∃ l₁ l₂, l = l₁ ++ a :: l₂ ∧ l' = l₁ ++ l₂ ∧ p a = true ∧ ∀ b ∈ l₁, p b = false := by
  constructor
  · exact exists_of_takeFirst
  · rintro ⟨l₁, l₂, rfl, rfl, ha, hnone⟩
    exact takeFirst_middle ha hnone

/-- What is removed matches. -/
theorem of_takeFirst (h : takeFirst p l = some (a, l')) : p a = true := by
  obtain ⟨_, _, _, _, ha, _⟩ := exists_of_takeFirst h
  exact ha

theorem mem_of_takeFirst (h : takeFirst p l = some (a, l')) : a ∈ l := by
  obtain ⟨_, _, rfl, _⟩ := exists_of_takeFirst h
  exact List.mem_append_right _ List.mem_cons_self

/-- What stays was there before. -/
theorem subset_of_takeFirst (h : takeFirst p l = some (a, l')) : l' ⊆ l := by
  obtain ⟨l₁, l₂, rfl, rfl, _⟩ := exists_of_takeFirst h
  exact List.append_subset.mpr
    ⟨List.subset_append_left _ _, fun _ hb => List.mem_append_right _ (List.mem_cons_of_mem _ hb)⟩

/-- What is removed and what stays are what there was. -/
theorem perm_of_takeFirst (h : takeFirst p l = some (a, l')) : (a :: l').Perm l := by
  obtain ⟨l₁, l₂, rfl, rfl, _⟩ := exists_of_takeFirst h
  exact List.perm_middle.symm

theorem find?_of_takeFirst (h : takeFirst p l = some (a, l')) : l.find? p = some a := by
  obtain ⟨l₁, l₂, rfl, rfl, ha, hnone⟩ := exists_of_takeFirst h
  rw [List.find?_append, List.find?_eq_none.mpr fun b hb => by simp [hnone b hb]]
  simp [ha]

/-- The entries that match lose their first. -/
theorem filter_takeFirst (h : takeFirst p l = some (a, l')) :
    l.filter p = a :: l'.filter p := by
  obtain ⟨l₁, l₂, rfl, rfl, ha, hnone⟩ := exists_of_takeFirst h
  have hl₁ : l₁.filter p = [] := by
    rw [List.filter_eq_nil_iff]
    intro b hb
    simp [hnone b hb]
  simp [hl₁, ha]

/-- The entries that satisfy another predicate lose what was removed, if it
satisfies this one as well. -/
theorem filter_takeFirst_of_nodup [DecidableEq α] (h : takeFirst p l = some (a, l'))
    (hnodup : (l.filter q).Nodup) :
    l'.filter q = (l.filter q).filter (· ≠ a) := by
  obtain ⟨l₁, l₂, rfl, rfl, _⟩ := exists_of_takeFirst h
  have hnotMem : a ∉ (l₁ ++ l₂).filter q := by
    intro ha
    have hq := List.of_mem_filter ha
    rw [List.filter_append, List.filter_cons, if_pos hq, List.nodup_middle,
      ← List.filter_append] at hnodup
    exact (List.nodup_cons.mp hnodup).1 ha
  calc (l₁ ++ l₂).filter q
      = ((l₁ ++ l₂).filter q).filter (· ≠ a) := by
        symm
        rw [List.filter_eq_self]
        rintro b hb
        exact decide_eq_true fun heq => hnotMem (heq ▸ hb)
    _ = ((l₁ ++ a :: l₂).filter q).filter (· ≠ a) := by
        cases hq : q a <;> simp [hq]

/-- Of distinct entries, what stays is all but the one removed. -/
theorem takeFirst_of_find? [DecidableEq α] (hnodup : l.Nodup) (h : l.find? p = some a) :
    takeFirst p l = some (a, l.filter (· ≠ a)) := by
  cases htake : takeFirst p l with
  | none =>
      have hnone := takeFirst_eq_none_iff.mp htake a (List.mem_of_find?_eq_some h)
      rw [List.find?_some h] at hnone
      cases hnone
  | some r =>
      obtain ⟨b, l'⟩ := r
      rw [find?_of_takeFirst htake] at h
      cases h
      have hall := filter_takeFirst_of_nodup (q := fun _ => true) htake (by simpa using hnodup)
      simp only [List.filter_true] at hall
      rw [hall]

/-- Readers and entries that wait for each other. -/
structure Engine (ρ μ : Type*) where
  posted : List ρ
  unexpected : List μ

namespace Engine

variable {ρ μ : Type*} (accepts : ρ → μ → Bool) (e : Engine ρ μ)

/-- An entry comes; the first reader that accepts it gets it. -/
def arrive (m : μ) : Engine ρ μ × Option (ρ × μ) :=
  match takeFirst (fun r => accepts r m) e.posted with
  | some (r, posted) => (⟨posted, e.unexpected⟩, some (r, m))
  | none => (⟨e.posted, e.unexpected ++ [m]⟩, none)

/-- A reader comes, and gets the first entry that it accepts. -/
def post (r : ρ) : Engine ρ μ × Option (ρ × μ) :=
  match takeFirst (accepts r) e.unexpected with
  | some (m, unexpected) => (⟨e.posted, unexpected⟩, some (r, m))
  | none => (⟨e.posted ++ [r], e.unexpected⟩, none)

/-- What an arrival does. -/
theorem arrive_cases (m : μ) :
    (∃ r posted, takeFirst (fun r => accepts r m) e.posted = some (r, posted) ∧
        e.arrive accepts m = (⟨posted, e.unexpected⟩, some (r, m))) ∨
      (∀ r ∈ e.posted, accepts r m = false) ∧
        e.arrive accepts m = (⟨e.posted, e.unexpected ++ [m]⟩, none) := by
  cases h : takeFirst (fun r => accepts r m) e.posted with
  | some found => exact Or.inl ⟨found.1, found.2, rfl, by simp [arrive, h]⟩
  | none => exact Or.inr ⟨takeFirst_eq_none_iff.mp h, by simp [arrive, h]⟩

/-- What a new reader does. -/
theorem post_cases (r : ρ) :
    (∃ m unexpected, takeFirst (accepts r) e.unexpected = some (m, unexpected) ∧
        e.post accepts r = (⟨e.posted, unexpected⟩, some (r, m))) ∨
      (∀ m ∈ e.unexpected, accepts r m = false) ∧
        e.post accepts r = (⟨e.posted ++ [r], e.unexpected⟩, none) := by
  cases h : takeFirst (accepts r) e.unexpected with
  | some found => exact Or.inl ⟨found.1, found.2, rfl, by simp [post, h]⟩
  | none => exact Or.inr ⟨takeFirst_eq_none_iff.mp h, by simp [post, h]⟩

end Engine

end MatchQueue
