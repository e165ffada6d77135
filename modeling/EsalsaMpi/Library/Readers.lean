import Mathlib.Data.List.Basic
import Mathlib.Data.List.Induction

/-!
# Readers of a stream

A reader takes what it needs from the front of a stream, and has no result if the stream
holds too little or something else.  `Reads` says that a reader takes exactly the given part
of any stream that begins with it.  Readers one after the other take what was written one
after the other (`Reads.bind`, `reads_mapM`, `reads_foldlM`), so that a reader and a writer
with the same structure agree, whatever follows.

`getElem?_foldl_set` is about what such a loop fills a table with.
-/

namespace Readers

variable {α β γ δ : Type}

/-- A reader of a stream of `α`. -/
abbrev Reader (α β : Type) := StateT (List α) Option β

/-- A condition on what has been read. -/
def require (p : Prop) [Decidable p] : Reader α Unit := fun stream =>
  if p then some ((), stream) else none

/-- The next `n` elements. -/
def readFully (n : Nat) : Reader α (List α) := fun stream =>
  if n ≤ stream.length then some (stream.take n, stream.drop n) else none

/-- What has been computed from what was read. -/
def ofOption (x : Option β) : Reader α β := fun stream => x.map (·, stream)

/-- The reader takes exactly this part of a stream, with this result. -/
def Reads (r : Reader α β) (part : List α) (b : β) : Prop :=
  ∀ rest, r (part ++ rest) = some (b, rest)

theorem bind_apply (r : Reader α β) (f : β → Reader α γ) (stream : List α) :
    (r >>= f) stream = (r stream).bind fun (b, rest) => f b rest := rfl

/-- Nothing is left if nothing follows. -/
theorem Reads.all {r : Reader α β} {part : List α} {b : β} (h : Reads r part b) :
    r part = some (b, []) := by
  have hall := h []
  rwa [List.append_nil] at hall

theorem bind_eq_some {r : Reader α β} {f : β → Reader α γ} {stream rest : List α} {c : γ}
    (h : (r >>= f) stream = some (c, rest)) :
    ∃ b rest', r stream = some (b, rest') ∧ f b rest' = some (c, rest) := by
  obtain ⟨⟨b, rest'⟩, hr, hf⟩ := Option.bind_eq_some_iff.mp h
  exact ⟨b, rest', hr, hf⟩

theorem Reads.pure (b : β) : Reads (Pure.pure b : Reader α β) [] b := fun _ => rfl

/-- What follows after a reader. -/
theorem Reads.bind_eq {r : Reader α β} {part : List α} {b : β} (h : Reads r part b)
    (f : β → Reader α γ) (rest : List α) : (r >>= f) (part ++ rest) = f b rest := by
  rw [bind_apply, h]
  rfl

theorem Reads.bind_eq_nil {r : Reader α β} {b : β} (h : Reads r [] b) (f : β → Reader α γ)
    (rest : List α) : (r >>= f) rest = f b rest := h.bind_eq f rest

theorem Reads.bind {r : Reader α β} {f : β → Reader α γ} {part part' : List α} {b : β} {c : γ}
    (h : Reads r part b) (h' : Reads (f b) part' c) : Reads (r >>= f) (part ++ part') c := by
  intro rest
  rw [List.append_assoc, h.bind_eq, h']

/-- A reader that takes nothing, in front of another. -/
theorem Reads.bind_nil {r : Reader α β} {f : β → Reader α γ} {part : List α} {b : β} {c : γ}
    (h : Reads r [] b) (h' : Reads (f b) part c) : Reads (r >>= f) part c := h.bind h'

/-- The last result of a reader is used. -/
theorem Reads.map {r : Reader α β} {f : β → Reader α γ} {part : List α} {b : β} {c : γ}
    (h : Reads r part b) (h' : Reads (f b) [] c) : Reads (r >>= f) part c := by
  have hbind := h.bind h'
  rwa [List.append_nil] at hbind

theorem reads_require {p : Prop} [Decidable p] (hp : p) :
    Reads (require p : Reader α Unit) [] () := fun _ => if_pos hp

theorem reads_readFully {n : Nat} {part : List α} (hn : part.length = n) :
    Reads (readFully n) part part := by
  intro rest
  subst hn
  rw [readFully, if_pos (by simp), List.take_left, List.drop_left]

theorem reads_ofOption {x : Option β} {b : β} (hx : x = some b) :
    Reads (ofOption x : Reader α β) [] b := by
  intro rest
  rw [hx]
  rfl

/-- **One reader for each element** of a list. -/
theorem reads_mapM {l : List δ} {f : δ → Reader α β} {part : δ → List α} {b : δ → β}
    (h : ∀ x ∈ l, Reads (f x) (part x) (b x)) :
    Reads (l.mapM f) (l.flatMap part) (l.map b) := by
  induction l with
  | nil => exact Reads.pure []
  | cons x l ih =>
      rw [List.mapM_cons, List.flatMap_cons, List.map_cons]
      exact (h x List.mem_cons_self).bind
        ((ih fun y hy => h y (List.mem_cons_of_mem x hy)).map (Reads.pure _))

/-- **One reader** as often as there are elements. -/
theorem reads_times {r : Reader α β} {part : β → List α} {l : List β}
    (h : ∀ b ∈ l, Reads r (part b) b) :
    Reads ((List.range l.length).mapM fun _ => r) (l.flatMap part) l := by
  induction l with
  | nil => exact Reads.pure []
  | cons b l ih =>
      rw [List.length_cons, List.range_succ_eq_map, List.mapM_cons, List.mapM_map,
        List.flatMap_cons]
      exact (h b List.mem_cons_self).bind
        ((ih fun c hc => h c (List.mem_cons_of_mem b hc)).map (Reads.pure _))

/-- **A loop** that reads in every round. -/
theorem reads_foldlM {l : List δ} {f : γ → δ → Reader α γ} {part : δ → List α}
    {step : γ → δ → γ} (h : ∀ x ∈ l, ∀ s, Reads (f s x) (part x) (step s x)) (s : γ) :
    Reads (l.foldlM f s) (l.flatMap part) (l.foldl step s) := by
  induction l generalizing s with
  | nil => exact Reads.pure s
  | cons x l ih =>
      rw [List.foldlM_cons, List.flatMap_cons, List.foldl_cons]
      exact (h x List.mem_cons_self s).bind
        (ih (fun y hy => h y (List.mem_cons_of_mem x hy)) (step s x))

theorem length_foldl_set {idx : δ → Nat} {e : δ → β} {l : List δ} {table : List β} :
    (l.foldl (fun t x => t.set (idx x) (e x)) table).length = table.length := by
  induction l generalizing table with
  | nil => rfl
  | cons x l ih => rw [List.foldl_cons, ih, List.length_set]

/-- **A loop that fills a table** leaves every element in its place, if no two have the same
one. -/
theorem getElem?_foldl_set {idx : δ → Nat} {e : δ → β} {l : List δ} {table : List β}
    (hinj : ∀ x ∈ l, ∀ y ∈ l, idx x = idx y → e x = e y) {y : δ} (hy : y ∈ l)
    (hlt : idx y < table.length) :
    (l.foldl (fun t x => t.set (idx x) (e x)) table)[idx y]? = some (e y) := by
  induction l using List.reverseRecOn with
  | nil => cases hy
  | append_singleton l x ih =>
      rw [List.foldl_append, List.foldl_cons, List.foldl_nil, List.getElem?_set]
      by_cases heq : idx x = idx y
      · rw [if_pos heq, if_pos (by rw [length_foldl_set]; exact heq ▸ hlt)]
        exact congrArg some (hinj x (by simp) y hy heq)
      · rw [if_neg heq]
        refine ih (fun a ha b hb => hinj a (List.mem_append_left _ ha) b
          (List.mem_append_left _ hb)) ?_
        rcases List.mem_append.mp hy with hy | hy
        · exact hy
        · exact absurd (congrArg idx (List.mem_singleton.mp hy).symm) heq

end Readers
