import Mathlib.Data.List.Basic
import Mathlib.Data.List.Infix

/-!
# Frames in a stream

A frame starts with a header of fixed size, and the header tells the length of
the frame.  A stream of frames can be cut in one way only:

* `prefix_of_flatten`: frames that start a stream of frames are its first
  frames;
* `next_frame`: what follows them starts with the next frame, whose length is
  known as soon as its header is there;
* `eq_of_flatten`: when less than a frame follows them and the stream ends
  there, they are all the frames.
-/

/-- How the elements of a stream form frames. -/
structure Framing (α : Type*) where
  header : Nat
  length : List α → Nat
  header_pos : 0 < header
  length_take : ∀ m, header ≤ m.length → length (m.take header) = length m

namespace Framing

variable {α : Type*} (F : Framing α)

/-- A frame has a header, which tells its length. -/
structure IsFrame (m : List α) : Prop where
  header_le : F.header ≤ m.length
  length_eq : F.length m = m.length

/-- The start of a frame of which `wanted` elements are needed next: the whole
header, or the whole frame. -/
def Incomplete (got : List α) (wanted : Nat) : Prop :=
  got.length < wanted ∧
    (wanted = F.header ∨ (F.header ≤ got.length ∧ wanted = F.length got))

variable {F} {m m' : List α} {es ms : List (List α)} {got : List α} {wanted : Nat}

theorem IsFrame.ne_nil (h : F.IsFrame m) : m ≠ [] := by
  intro hnil
  have := h.header_le
  have := F.header_pos
  simp only [hnil, List.length_nil] at *
  omega

theorem length_append (hm : F.header ≤ m.length) (rest : List α) :
    F.length (m ++ rest) = F.length m := by
  rw [← F.length_take (m ++ rest) (by rw [List.length_append]; omega),
    List.take_append_of_le_length hm, F.length_take m hm]

/-- Two frames at the head of one stream are the same. -/
theorem IsFrame.eq_of_append (h : F.IsFrame m) (h' : F.IsFrame m') {rest rest' : List α}
    (heq : m ++ rest = m' ++ rest') : m = m' := by
  have hlength : m.length = m'.length := by
    rw [← h.length_eq, ← h'.length_eq, ← length_append h.header_le rest, heq,
      length_append h'.header_le]
  exact (List.append_inj heq hlength).1

/-- **Frames that start a stream.** -/
theorem prefix_of_flatten (hes : ∀ e ∈ es, F.IsFrame e) (hms : ∀ m ∈ ms, F.IsFrame m)
    (h : es.flatten ++ got <+: ms.flatten) :
    ∃ ms', ms = es ++ ms' ∧ got <+: ms'.flatten := by
  induction es generalizing ms with
  | nil => exact ⟨ms, rfl, h⟩
  | cons e es ih =>
      obtain ⟨rest, hrest⟩ := h
      cases ms with
      | nil =>
          simp only [List.flatten_cons, List.flatten_nil, List.append_eq_nil_iff] at hrest
          exact absurd hrest.1.1.1 (hes e List.mem_cons_self).ne_nil
      | cons m ms =>
          simp only [List.flatten_cons, List.append_assoc] at hrest
          have heq := (hes e List.mem_cons_self).eq_of_append (hms m List.mem_cons_self) hrest
          subst heq
          have htail := List.append_cancel_left hrest
          obtain ⟨ms', rfl, hgot⟩ := ih (fun e he => hes e (List.mem_cons_of_mem _ he))
            (fun m hm => hms m (List.mem_cons_of_mem _ hm))
            ⟨rest, by rw [List.append_assoc]; exact htail⟩
          exact ⟨ms', rfl, hgot⟩

/-- **The next frame**, once its header is there. -/
theorem next_frame (hms : ∀ m ∈ ms, F.IsFrame m) (hgot : F.header ≤ got.length)
    (h : got <+: ms.flatten) :
    ∃ m ms', ms = m :: ms' ∧ F.length got = m.length ∧ got <+: m ++ ms'.flatten := by
  have hpos := F.header_pos
  cases ms with
  | nil =>
      have hnil := List.prefix_nil.mp h
      rw [hnil, List.length_nil] at hgot
      omega
  | cons m ms =>
      have hm := hms m List.mem_cons_self
      obtain ⟨rest, hrest⟩ := h
      rw [List.flatten_cons] at hrest
      refine ⟨m, ms, rfl, ?_, ⟨rest, hrest⟩⟩
      rw [← length_append hgot rest, hrest, length_append hm.header_le, hm.length_eq]

/-- **The end of a stream** is not inside of a frame. -/
theorem eq_of_flatten (hes : ∀ e ∈ es, F.IsFrame e) (hms : ∀ m ∈ ms, F.IsFrame m)
    (hincomplete : F.Incomplete got wanted) (h : es.flatten ++ got = ms.flatten) :
    es = ms ∧ got = [] := by
  obtain ⟨ms', hms', hgot⟩ := prefix_of_flatten hes hms ⟨[], by rw [List.append_nil, h]⟩
  subst hms'
  have hrest : got = ms'.flatten := by
    rw [List.flatten_append] at h
    exact List.append_cancel_left h
  cases ms' with
  | nil => exact ⟨(List.append_nil es).symm, hrest⟩
  | cons m ms =>
      have hm := hms m (by simp)
      have hle : m.length ≤ got.length := by
        rw [hrest, List.flatten_cons, List.length_append]
        omega
      have hlength : F.length got = m.length := by
        rw [hrest, List.flatten_cons, length_append hm.header_le, hm.length_eq]
      have hheader := hm.header_le
      rcases hincomplete with ⟨hlt, hwanted | ⟨_, hwanted⟩⟩ <;> omega

end Framing
