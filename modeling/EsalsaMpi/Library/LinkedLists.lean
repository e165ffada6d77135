import Mathlib.Data.List.Nodup
import Mathlib.Logic.Function.Basic

/-!
# Linked lists

Memory hands out blocks that are numbered as they are made (`Blocks`): a block that has been
freed holds nothing, and its number is not used again.  A block here is a node of a list, with
the block that comes next and a content.  Reading, writing or freeing a block that holds
nothing has no result.

`Seg` says that a chain of nodes leads from one pointer to another, and `Linked` that a chain
ends in `NULL` and does not meet itself.  What programs do to such lists is stated once:

* `Linked.push` puts a new node in front, `Linked.snoc` one behind the last;
* `Linked.pop` frees the first node, `Linked.unlink` one behind another.
-/

namespace LinkedLists

/-- A node of a list. -/
structure Node (α : Type*) where
  next : Option Nat
  content : α

/-- The blocks that have been made, and what they hold. -/
structure Blocks (α : Type*) where
  made : Nat
  nodes : Nat → Option (Node α)

variable {α : Type*}

namespace Blocks

def empty : Blocks α := ⟨0, fun _ => none⟩

/-- A new block, `h.made`. -/
def alloc (h : Blocks α) (node : Node α) : Blocks α :=
  ⟨h.made + 1, Function.update h.nodes h.made (some node)⟩

/-- A write of the pointer to the next node. -/
def setNext (h : Blocks α) (a : Nat) (next : Option Nat) : Option (Blocks α) :=
  (h.nodes a).map fun node =>
    { h with nodes := Function.update h.nodes a (some { node with next }) }

def free (h : Blocks α) (a : Nat) : Option (Blocks α) :=
  (h.nodes a).map fun _ => { h with nodes := Function.update h.nodes a none }

theorem setNext_eq {h : Blocks α} {a : Nat} {node : Node α} (ha : h.nodes a = some node)
    (next : Option Nat) : h.setNext a next =
      some { h with nodes := Function.update h.nodes a (some { node with next }) } := by
  rw [setNext, ha]
  rfl

theorem free_eq {h : Blocks α} {a : Nat} {node : Node α} (ha : h.nodes a = some node) :
    h.free a = some { h with nodes := Function.update h.nodes a none } := by
  rw [free, ha]
  rfl

theorem made_of_setNext {h h' : Blocks α} {a : Nat} {next : Option Nat}
    (hset : h.setNext a next = some h') : h'.made = h.made := by
  obtain ⟨_, _, rfl⟩ := Option.map_eq_some_iff.mp hset
  rfl

theorem made_of_free {h h' : Blocks α} {a : Nat} (hfree : h.free a = some h') :
    h'.made = h.made := by
  obtain ⟨_, _, rfl⟩ := Option.map_eq_some_iff.mp hfree
  rfl

/-- What is written to a block just before it is freed is lost. -/
theorem free_of_setNext {h h' : Blocks α} {a : Nat} {next : Option Nat}
    (hset : h.setNext a next = some h') : h'.free a = h.free a := by
  obtain ⟨node, ha, rfl⟩ := Option.map_eq_some_iff.mp hset
  simp only [free, Function.update_self, ha, Option.map_some, Function.update_idem]

end Blocks

/-- A chain of nodes from `p` to `q`, with the blocks and the contents of its nodes. -/
def Seg (h : Blocks α) : Option Nat → List (Nat × α) → Option Nat → Prop
  | p, [], q => p = q
  | p, (a, x) :: l, q => p = some a ∧ ∃ next, h.nodes a = some ⟨next, x⟩ ∧ Seg h next l q

variable {h h' : Blocks α} {p q : Option Nat} {l l₁ l₂ : List (Nat × α)} {a b : Nat} {x y : α}

theorem seg_append : Seg h p (l₁ ++ l₂) q ↔ ∃ r, Seg h p l₁ r ∧ Seg h r l₂ q := by
  induction l₁ generalizing p with
  | nil =>
      constructor
      · exact fun hseg => ⟨p, rfl, hseg⟩
      · rintro ⟨r, rfl, hseg⟩
        exact hseg
  | cons e l₁ ih =>
      constructor
      · rintro ⟨hp, next, ha, hseg⟩
        obtain ⟨r, hl₁, hl₂⟩ := ih.mp hseg
        exact ⟨r, ⟨hp, next, ha, hl₁⟩, hl₂⟩
      · rintro ⟨r, ⟨hp, next, ha, hl₁⟩, hl₂⟩
        exact ⟨hp, next, ha, ih.mpr ⟨r, hl₁, hl₂⟩⟩

/-- A chain depends on its own nodes only. -/
theorem Seg.congr (hseg : Seg h p l q) (hnodes : ∀ e ∈ l, h'.nodes e.1 = h.nodes e.1) :
    Seg h' p l q := by
  induction l generalizing p with
  | nil => exact hseg
  | cons e l ih =>
      obtain ⟨hp, next, ha, hrest⟩ := hseg
      obtain ⟨he, hnodes⟩ := List.forall_mem_cons.mp hnodes
      exact ⟨hp, next, he.trans ha, ih hrest hnodes⟩

/-- A change of a node outside of the chain. -/
theorem Seg.update (hseg : Seg h p l q) (ha : a ∉ l.map Prod.fst) (node : Option (Node α))
    (made : Nat) : Seg ⟨made, Function.update h.nodes a node⟩ p l q := by
  refine hseg.congr fun e he => Function.update_of_ne ?_ _ _
  rintro rfl
  exact ha (List.mem_map_of_mem he)

/-- A chain that ends in `NULL` is empty where it starts there. -/
theorem seg_null_iff (hseg : Seg h p l none) : p = none ↔ l = [] := by
  cases l with
  | nil => exact iff_of_true hseg rfl
  | cons e l =>
      refine iff_of_false ?_ (List.cons_ne_nil e l)
      rw [hseg.1]
      exact Option.some_ne_none _

/-- **A linked list** from `p`: its nodes are distinct blocks, and the last points nowhere. -/
structure Linked (h : Blocks α) (p : Option Nat) (l : List (Nat × α)) : Prop where
  seg : Seg h p l none
  nodup : (l.map Prod.fst).Nodup
  made : ∀ e ∈ l, e.1 < h.made

namespace Linked

theorem nil (h : Blocks α) : Linked h none [] := ⟨rfl, List.nodup_nil, nofun⟩

/-- The first node of what is left after a part of the list. -/
theorem node (hl : Linked h p (l₁ ++ (a, x) :: l₂)) :
    Seg h p l₁ (some a) ∧ ∃ next, h.nodes a = some ⟨next, x⟩ ∧ Seg h next l₂ none := by
  obtain ⟨r, hseg₁, hr, next, ha, hseg₂⟩ := seg_append.mp hl.seg
  subst hr
  exact ⟨hseg₁, next, ha, hseg₂⟩

theorem notMem (hl : Linked h p (l₁ ++ (a, x) :: l₂)) :
    a ∉ l₁.map Prod.fst ∧ a ∉ l₂.map Prod.fst := by
  have hnodup := hl.nodup
  rw [List.map_append, List.map_cons] at hnodup
  obtain ⟨_, hright, hapart⟩ := List.nodup_append.mp hnodup
  refine ⟨fun hmem => hapart a hmem a List.mem_cons_self rfl, (List.nodup_cons.mp hright).1⟩

/-- The block that is made next is not in the list. -/
theorem made_notMem (hl : Linked h p l) : h.made ∉ l.map Prod.fst := by
  intro hmem
  obtain ⟨e, he, hmade⟩ := List.mem_map.mp hmem
  exact absurd (hl.made e he) (by omega)

/-- Other blocks are made. -/
theorem alloc (hl : Linked h p l) (node : Node α) : Linked (h.alloc node) p l :=
  ⟨hl.seg.update hl.made_notMem _ _, hl.nodup, fun e he => Nat.lt_succ_of_lt (hl.made e he)⟩

/-- **A new node in front.** -/
theorem push (hl : Linked h p l) (x : α) :
    Linked (h.alloc ⟨p, x⟩) (some h.made) ((h.made, x) :: l) := by
  constructor
  · exact ⟨rfl, p, Function.update_self .., (hl.alloc _).seg⟩
  · exact List.nodup_cons.mpr ⟨hl.made_notMem, hl.nodup⟩
  · intro e he
    rcases List.mem_cons.mp he with rfl | he
    · exact Nat.lt_succ_self _
    · exact (hl.alloc ⟨p, x⟩).made e he

/-- **A new node behind the last.** -/
theorem snoc (hl : Linked h p (l ++ [(a, y)])) (x : α) :
    ∃ h', (h.alloc ⟨none, x⟩).setNext a (some h.made) = some h' ∧
      Linked h' p (l ++ [(a, y), (h.made, x)]) := by
  obtain ⟨hseg, next, ha, _⟩ := hl.node
  have hnew := hl.made_notMem
  rw [List.map_append, List.mem_append, not_or] at hnew
  have hne : a ≠ h.made := by
    rintro rfl
    exact hnew.2 List.mem_cons_self
  have ha' : (h.alloc ⟨none, x⟩).nodes a = some ⟨next, y⟩ := by
    simp only [Blocks.alloc, Function.update_of_ne hne]
    exact ha
  refine ⟨_, Blocks.setNext_eq ha' _, ?_, ?_, ?_⟩
  · refine seg_append.mpr ⟨some a, ?_, rfl, some h.made, Function.update_self .., rfl, none, ?_, rfl⟩
    · exact (hseg.update hnew.1 _ _).update hl.notMem.1 _ _
    · simp only [Function.update_of_ne hne.symm]
      exact Function.update_self ..
  · rw [show l ++ [(a, y), (h.made, x)] = l ++ [(a, y)] ++ [(h.made, x)] by simp, List.map_append]
    refine List.nodup_append.mpr ⟨hl.nodup, List.nodup_singleton _, ?_⟩
    rintro b hb c hc rfl
    rw [List.map_singleton, List.mem_singleton] at hc
    subst hc
    exact hl.made_notMem hb
  · intro e he
    rw [show l ++ [(a, y), (h.made, x)] = l ++ [(a, y)] ++ [(h.made, x)] by simp] at he
    rcases List.mem_append.mp he with he | he
    · exact Nat.lt_succ_of_lt (hl.made e he)
    · rw [List.mem_singleton.mp he]
      exact Nat.lt_succ_self _

/-- **The first node is freed.** -/
theorem pop (hl : Linked h p ((a, x) :: l)) :
    p = some a ∧ ∃ next h', h.nodes a = some ⟨next, x⟩ ∧ h.free a = some h' ∧
      Linked h' next l := by
  obtain ⟨hp, next, ha, hseg⟩ := hl.seg
  obtain ⟨hnot, hnodup⟩ := List.nodup_cons.mp hl.nodup
  refine ⟨hp, next, _, ha, Blocks.free_eq ha, hseg.update hnot _ _, hnodup, fun e he => ?_⟩
  exact hl.made e (List.mem_cons_of_mem _ he)

/-- **A node behind another** is taken out and freed. -/
theorem unlink (hl : Linked h p (l₁ ++ (b, y) :: (a, x) :: l₂)) :
    ∃ next h₁ h₂, h.nodes b = some ⟨some a, y⟩ ∧ h.nodes a = some ⟨next, x⟩ ∧
      h.setNext b next = some h₁ ∧ h₁.nodes a = some ⟨next, x⟩ ∧ h₁.free a = some h₂ ∧
      Seg h₂ next l₂ none ∧ Linked h₂ p (l₁ ++ (b, y) :: l₂) := by
  obtain ⟨hseg₁, _, hb, hp, next, ha, hseg₂⟩ := hl.node
  subst hp
  have hnot := hl.notMem
  rw [List.map_cons, List.mem_cons, not_or] at hnot
  have hl' : Linked h p ((l₁ ++ [(b, y)]) ++ (a, x) :: l₂) := by
    rw [List.append_assoc]
    exact hl
  obtain ⟨ha₁, ha₂⟩ := hl'.notMem
  rw [List.map_append, List.mem_append, not_or] at ha₁
  have hset : Function.update h.nodes b (some ⟨next, y⟩) a = some ⟨next, x⟩ := by
    rw [Function.update_of_ne (Ne.symm hnot.2.1)]
    exact ha
  have hseg₂ := (hseg₂.update hnot.2.2 (some ⟨next, y⟩) h.made).update ha₂ none h.made
  refine ⟨next, _, _, hb, ha, Blocks.setNext_eq hb next, hset, Blocks.free_eq hset, hseg₂,
    ?_, ?_, ?_⟩
  · refine seg_append.mpr ⟨some b, ?_, rfl, next, ?_, ?_⟩
    · exact (hseg₁.update hnot.1 _ _).update ha₁.1 _ _
    · simp only [Function.update_of_ne hnot.2.1]
      exact Function.update_self ..
    · exact hseg₂
  · have hsub : List.Sublist (l₁ ++ (b, y) :: l₂) (l₁ ++ (b, y) :: (a, x) :: l₂) :=
      (List.Sublist.refl l₁).append (((List.sublist_cons_self _ _)).cons_cons _)
    exact hl.nodup.sublist (hsub.map Prod.fst)
  · intro e he
    refine hl.made e ?_
    rcases List.mem_append.mp he with he | he
    · exact List.mem_append_left _ he
    · rcases List.mem_cons.mp he with rfl | he
      · exact List.mem_append_right _ List.mem_cons_self
      · exact List.mem_append_right _ (List.mem_cons_of_mem _ (List.mem_cons_of_mem _ he))

end Linked

end LinkedLists
