import EsalsaMpi.Backend.Messaging
import EsalsaMpi.Library.Placement
import Mathlib.Tactic.Linarith
import Mathlib.Tactic.Ring

/-!
# Datatypes

A datatype says where the parts of an element are: its typemap lists basic types with
their displacements, and the next element begins an extent later.  What is sent are the
bytes in these places, and a receive puts them into the places of its own datatype.  The
two datatypes may differ, as long as the basic types are the same one by one.

The collective calls keep elements in memory of `count * extent` bytes, which they get from
`malloc` or copy with `memcpy`.  This is right for elements that do not reach out of their
extent (`Datatype.Holds`).
-/

namespace EsalsaMpi

open Placement

/-- A basic type, with its size in bytes. -/
structure Basic where
  handle : Int
  size : Nat
deriving DecidableEq, Repr

/-- `datatype`: the handle, and what the library has behind it. -/
structure Datatype where
  handle : Int
  typemap : List (Basic × Int)
  extent : Nat
deriving DecidableEq, Repr

namespace Datatype

variable {t t' : Datatype} {count count' size : Nat} {d d' a o : Int}

/-- Where the bytes of an element are, from its start. -/
def bytes (t : Datatype) : List Int := t.typemap.flatMap fun e => block e.2 e.1.size

/-- Where the bytes of some elements are, from the start of the first one. -/
def offsets (t : Datatype) (count : Nat) : List Int :=
  (List.range count).flatMap fun k : Nat => t.bytes.map fun o => k * t.extent + o

/-- The basic types of some elements. -/
def signature (t : Datatype) (count : Nat) : List Basic :=
  (List.range count).flatMap fun _ => t.typemap.map (·.1)

/-- Where the bytes of some elements are in memory. -/
def places (t : Datatype) (start : Int) (count : Nat) : List Int :=
  (t.offsets count).map (start + ·)

theorem mem_offsets : o ∈ t.offsets count ↔ ∃ k : Nat, k < count ∧ ∃ b ∈ t.bytes, o = k * t.extent + b := by
  constructor
  · intro ho
    obtain ⟨k, hk, ho⟩ := List.mem_flatMap.mp ho
    obtain ⟨b, hb, rfl⟩ := List.mem_map.mp ho
    exact ⟨k, List.mem_range.mp hk, b, hb, rfl⟩
  · rintro ⟨k, hk, b, hb, rfl⟩
    exact List.mem_flatMap.mpr ⟨k, List.mem_range.mpr hk, List.mem_map_of_mem hb⟩

@[simp] theorem length_places (t : Datatype) (start : Int) (count : Nat) :
    (t.places start count).length = (t.offsets count).length := List.length_map _

theorem nodup_places (h : (t.offsets count).Nodup) (start : Int) : (t.places start count).Nodup :=
  h.map fun _ _ hab => Int.add_left_cancel hab

/-- The basic types say how many bytes there are. -/
theorem length_offsets (t : Datatype) (count : Nat) :
    (t.offsets count).length = ((t.signature count).map (·.size)).sum := by
  have hbytes : t.bytes.length = ((t.typemap.map (·.1)).map (·.size)).sum := by
    rw [bytes, List.length_flatMap, List.map_map]
    congr 1
    apply List.map_congr_left
    intro e _
    simp [block]
  induction count with
  | zero => rfl
  | succ count ih =>
      rw [offsets, signature, List.range_succ, List.flatMap_append, List.flatMap_append,
        List.length_append, List.map_append, List.sum_append, ← offsets, ← signature, ih,
        List.flatMap_singleton, List.flatMap_singleton, List.length_map, hbytes]

theorem length_offsets_eq (h : t.signature count = t'.signature count') :
    (t.offsets count).length = (t'.offsets count').length := by
  rw [length_offsets, length_offsets, h]

/-- Where the bytes of elements without gaps are. -/
theorem offsets_eq_block (h : t.bytes = block 0 t.extent) (count : Nat) :
    t.offsets count = block 0 (count * t.extent) := by
  induction count with
  | zero =>
      rw [Nat.zero_mul]
      rfl
  | succ count ih =>
      rw [offsets, List.range_succ, List.flatMap_append, ← offsets, ih, List.flatMap_singleton,
        h, Nat.succ_mul, block_add, Int.zero_add, Nat.cast_mul]

theorem mem_places_iff (h : t.bytes = block 0 t.extent) :
    a ∈ t.places d count ↔ d ≤ a ∧ a < d + count * t.extent := by
  rw [places, offsets_eq_block h, List.mem_map]
  constructor
  · intro ⟨o, ho, heq⟩
    have := mem_block.mp ho
    push_cast at this
    omega
  · intro ha
    refine ⟨a - d, mem_block.mpr ?_, by omega⟩
    push_cast
    omega

/-- Data of a datatype that lies inside of the extents of its elements is apart from
what other blocks of the datatype cover, if it is apart from their data. -/
theorem notMem_block (hinside : ∀ o ∈ t.offsets count, 0 ≤ o ∧ o < (count * t.extent : Nat))
    (hdisjoint : ∀ a ∈ t.places (d' * t.extent) count', a ∉ t.places (d * t.extent) count)
    (ha : a ∈ t.places (d' * t.extent) count') : a ∉ block (d * t.extent) (count * t.extent) := by
  intro hblock
  apply hdisjoint a ha
  obtain ⟨hle, hlt⟩ := mem_block.mp hblock
  obtain ⟨_, ho, rfl⟩ := List.mem_map.mp ha
  obtain ⟨k, _, b, hb, rfl⟩ := mem_offsets.mp ho
  have hcount : 0 < count := by
    rcases Nat.eq_zero_or_pos count with rfl | hpos
    · simp at hlt hle
      omega
    · exact hpos
  have hfirst : 0 ≤ b := by
    have := (hinside _ (mem_offsets.mpr ⟨0, hcount, b, hb, rfl⟩)).1
    simpa using this
  have hlast : b < t.extent := by
    obtain ⟨m, rfl⟩ : ∃ m, count = m + 1 := ⟨count - 1, by omega⟩
    have := (hinside _ (mem_offsets.mpr ⟨m, Nat.lt_succ_self m, b, hb, rfl⟩)).2
    push_cast at this
    linarith
  -- the element of the block in whose extent the byte lies
  let q : Int := d' - d + k
  have hbyte : d' * t.extent + (k * t.extent + b) = d * t.extent + (q * t.extent + b) := by
    ring
  rw [hbyte] at hle hlt ⊢
  have hq : 0 ≤ q := by
    by_contra hneg
    have : q * t.extent ≤ -1 * t.extent :=
      Int.mul_le_mul_of_nonneg_right (by omega) (by omega)
    omega
  have hq' : q < count := by
    by_contra hge
    have : (count : Int) * t.extent ≤ q * t.extent :=
      Int.mul_le_mul_of_nonneg_right (by omega) (by omega)
    push_cast at hlt
    omega
  refine List.mem_map_of_mem (mem_offsets.mpr ⟨q.toNat, by omega, b, hb, ?_⟩)
  rw [Int.toNat_of_nonneg hq]

/-- The bytes of an element lie in its extent. -/
def Within (t : Datatype) : Prop := ∀ o ∈ t.bytes, 0 ≤ o ∧ o < t.extent

instance : Decidable t.Within := inferInstanceAs (Decidable (∀ o ∈ t.bytes, _))

/-- Memory of `count * extent` bytes holds `count` elements: they do not reach out of it. -/
def Holds (t : Datatype) (count : Nat) : Prop := count = 0 ∨ t.Within

instance : Decidable (t.Holds count) := inferInstanceAs (Decidable (_ ∨ _))

/-- Elements that go through memory of `count * extent` bytes.  Where it does not hold them, C
does not say what becomes of them. -/
def raw {α : Type} (t : Datatype) (xs : List α) : Option (List α) :=
  if t.Holds xs.length then some xs else none

end Datatype

/-- `datatype`, with what the library does with its elements, which are of type `α`. -/
structure ElementType (α : Type) extends Datatype where
  pk : Packing α

/-- The datatypes of a process by their handles. -/
structure DatatypeTable (α : Type) where
  handleToDatatype : Int → ElementType α
  handle_eq : ∀ handle, (handleToDatatype handle).handle = handle

/-- `EMPI_BYTE`. -/
def empiByte : Int := 16

/-- Its elements. -/
def byteType : ElementType UInt8 where
  handle := empiByte
  typemap := [(⟨empiByte, 1⟩, 0)]
  extent := 1
  pk := bytePacking

end EsalsaMpi
