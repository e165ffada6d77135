import Mathlib.Algebra.Group.Int.Defs
import Mathlib.Algebra.Group.Nat.Defs
import Mathlib.Data.List.Basic
import Mathlib.Order.Defs.LinearOrder

/-!
# Integers of C

An integer type has a number of bytes, and is signed or not.  Operands of a type that is
narrower than `int` are promoted to `int`, and what an operator yields is converted when it
is assigned.  A conversion keeps the value as far as the width allows, and an arithmetic
operator wraps at the width of its operands.

* `binary_add` and its companions: promotion and assignment leave the operators of the type
  itself, wrapping at its own width;
* `compare_eq`, `binary_select` and `binary_truth`: promotion keeps comparisons, a conditional
  expression yields one of the operands, and a condition yields 1 or 0.
-/

namespace CInt

/-- An integer type. -/
@[ext] structure IntType where
  bytes : Nat
  signed : Bool
  bytes_pos : 0 < bytes

instance : DecidableEq IntType := fun _ _ => decidable_of_iff' _ IntType.ext_iff

namespace IntType

/-- The number of bits. -/
def width (t : IntType) : Nat := 8 * t.bytes

/-- The objects of the type. -/
abbrev Value (t : IntType) := BitVec t.width

/-- The value of an object. -/
def toInt (t : IntType) (x : t.Value) : Int := if t.signed then BitVec.toInt x else x.toNat

/-- The object with a value, as far as the width allows. -/
def ofInt (t : IntType) (v : Int) : t.Value := BitVec.ofInt t.width v

/-- `int`. -/
def int : IntType := ⟨4, true, by decide⟩

/-- The type in which an operand is used. -/
def promote (t : IntType) : IntType := if t.bytes < int.bytes then int else t

end IntType

open IntType

/-- Conversion to another type. -/
def convert (t t' : IntType) (x : t.Value) : t'.Value := t'.ofInt (t.toInt x)

/-- An operator on two operands of one type, assigned to an object of that type. -/
def binary (t : IntType) (f : (p : IntType) → p.Value → p.Value → p.Value) (x y : t.Value) :
    t.Value :=
  convert t.promote t (f t.promote (convert t t.promote x) (convert t t.promote y))

/-- A comparison of two operands of one type. -/
def compare (t : IntType) (r : Int → Int → Bool) (x y : t.Value) : Bool :=
  r (t.promote.toInt (convert t t.promote x)) (t.promote.toInt (convert t t.promote y))

/-- The value of a condition: 1 or 0. -/
def truth (t : IntType) (b : Bool) : t.Value := t.ofInt (if b then 1 else 0)

variable {t : IntType}

theorem ofInt_toInt (t : IntType) (x : t.Value) : t.ofInt (t.toInt x) = x := by
  rw [IntType.ofInt, IntType.toInt]
  split
  · exact BitVec.ofInt_toInt
  · rw [BitVec.ofInt_natCast, BitVec.ofNat_toNat, BitVec.setWidth_eq]

theorem toInt_injective (t : IntType) : Function.Injective t.toInt := by
  intro x y h
  rw [← ofInt_toInt t x, h, ofInt_toInt]

theorem convert_self (x : t.Value) : convert t t x = x := ofInt_toInt t x

/-- A narrow type has values that an `int` has. -/
theorem toInt_bounds (h : t.bytes < int.bytes) (x : t.Value) :
    -2 ^ 31 ≤ t.toInt x ∧ t.toInt x < 2 ^ 31 := by
  have hbytes : t.bytes < 4 := h
  have hwidth : t.width ≤ 24 := by
    rw [IntType.width]
    omega
  have hpow : (2 : Nat) ^ t.width ≤ 2 ^ 24 := Nat.pow_le_pow_right (by decide) hwidth
  have hlt := x.isLt
  rw [IntType.toInt]
  split
  · have hle := BitVec.le_two_mul_toInt (x := x)
    have hlt' := BitVec.two_mul_toInt_lt (x := x)
    have hcast : ((2 : Int) ^ t.width) = ((2 ^ t.width : Nat) : Int) := by push_cast; rfl
    rw [hcast] at hle hlt'
    omega
  · omega

/-- Promotion keeps the value. -/
theorem toInt_convert_int (h : t.bytes < int.bytes) (x : t.Value) :
    int.toInt (convert t int x) = t.toInt x := by
  obtain ⟨hlow, hhigh⟩ := toInt_bounds h x
  exact BitVec.toInt_ofInt_eq_self (by decide) hlow hhigh

/-- A comparison is one of the values. -/
theorem compare_eq (r : Int → Int → Bool) (x y : t.Value) :
    compare t r x y = r (t.toInt x) (t.toInt y) := by
  by_cases hnarrow : t.bytes < int.bytes
  · have hpromote : t.promote = int := if_pos hnarrow
    rw [compare, hpromote, toInt_convert_int hnarrow, toInt_convert_int hnarrow]
  · have hpromote : t.promote = t := if_neg hnarrow
    rw [compare, hpromote, convert_self, convert_self]

theorem convert_int_convert (h : t.bytes < int.bytes) (x : t.Value) :
    convert int t (convert t int x) = x := by
  rw [convert, toInt_convert_int h, ofInt_toInt]

/-- Conversion of an `int` to a narrow type takes its last bits. -/
theorem convert_int_eq (h : t.bytes < int.bytes) (x : int.Value) :
    convert int t x = BitVec.setWidth t.width x := by
  have hle : t.width ≤ int.width := Nat.mul_le_mul_left 8 (Nat.le_of_lt h)
  exact BitVec.signExtend_eq_setWidth_of_le x hle

/-- **An operator**, without promotion or with it. -/
theorem binary_eq {f : (p : IntType) → p.Value → p.Value → p.Value} {x y z : t.Value}
    (hself : f t x y = z)
    (hint : t.bytes < int.bytes → convert int t (f int (convert t int x) (convert t int y)) = z) :
    binary t f x y = z := by
  by_cases hnarrow : t.bytes < int.bytes
  · have hpromote : t.promote = int := if_pos hnarrow
    rw [binary, hpromote]
    exact hint hnarrow
  · have hpromote : t.promote = t := if_neg hnarrow
    rw [binary, hpromote, convert_self, convert_self, convert_self]
    exact hself

/-- An operator that wraps. -/
theorem binary_of_setWidth {f : (p : IntType) → p.Value → p.Value → p.Value}
    (hf : t.bytes < int.bytes → ∀ x y : int.Value,
      BitVec.setWidth t.width (f int x y) = f t (BitVec.setWidth t.width x) (BitVec.setWidth t.width y))
    (x y : t.Value) : binary t f x y = f t x y := by
  refine binary_eq rfl fun hnarrow => ?_
  rw [convert_int_eq hnarrow, hf hnarrow, ← convert_int_eq hnarrow, ← convert_int_eq hnarrow,
    convert_int_convert hnarrow, convert_int_convert hnarrow]

theorem binary_add (x y : t.Value) : binary t (fun _ a b => a + b) x y = x + y :=
  binary_of_setWidth (f := fun _ a b => a + b) (fun h x y =>
    BitVec.setWidth_add x y (Nat.mul_le_mul_left 8 (Nat.le_of_lt h))) x y

theorem binary_mul (x y : t.Value) : binary t (fun _ a b => a * b) x y = x * y :=
  binary_of_setWidth (f := fun _ a b => a * b) (fun h x y =>
    BitVec.setWidth_mul x y (Nat.mul_le_mul_left 8 (Nat.le_of_lt h))) x y

theorem binary_and (x y : t.Value) : binary t (fun _ a b => a &&& b) x y = x &&& y :=
  binary_of_setWidth (f := fun _ a b => a &&& b) (fun _ _ _ => BitVec.setWidth_and) x y

theorem binary_or (x y : t.Value) : binary t (fun _ a b => a ||| b) x y = x ||| y :=
  binary_of_setWidth (f := fun _ a b => a ||| b) (fun _ _ _ => BitVec.setWidth_or) x y

theorem binary_xor (x y : t.Value) : binary t (fun _ a b => a ^^^ b) x y = x ^^^ y :=
  binary_of_setWidth (f := fun _ a b => a ^^^ b) (fun _ _ _ => BitVec.setWidth_xor) x y

/-- **A conditional expression** with a comparison of the operands. -/
theorem binary_select (r : Int → Int → Bool) (x y : t.Value) :
    binary t (fun p a b => if r (p.toInt a) (p.toInt b) then a else b) x y =
      if r (t.toInt x) (t.toInt y) then x else y := by
  refine binary_eq rfl fun hnarrow => ?_
  rw [toInt_convert_int hnarrow, toInt_convert_int hnarrow]
  split
  · exact convert_int_convert hnarrow x
  · exact convert_int_convert hnarrow y

theorem ofInt_zero (t : IntType) : t.ofInt 0 = 0 := BitVec.ofInt_natCast t.width 0

/-- Promotion keeps zero. -/
theorem convert_int_eq_zero (h : t.bytes < int.bytes) (x : t.Value) :
    convert t int x = 0 ↔ x = 0 := by
  constructor
  · intro hx
    rw [← convert_int_convert h x, hx, convert_int_eq h]
    exact BitVec.setWidth_zero _ _
  · intro hx
    subst hx
    have hzero : t.toInt 0 = 0 := by
      rw [IntType.toInt]
      split
      · exact BitVec.toInt_zero
      · rfl
    rw [convert, hzero, ofInt_zero]

/-- **A condition** on which of the operands are 0. -/
theorem binary_truth (r : Bool → Bool → Bool) (x y : t.Value) :
    binary t (fun p a b => truth p (r (a ≠ 0) (b ≠ 0))) x y = truth t (r (x ≠ 0) (y ≠ 0)) := by
  refine binary_eq rfl fun hnarrow => ?_
  have htruth : ∀ b : Bool, convert int t (truth int b) = truth t b := by
    intro b
    cases b <;> rfl
  simp only [ne_eq, convert_int_eq_zero hnarrow, htruth]

theorem one_ne_zero (t : IntType) : t.ofInt 1 ≠ 0 := by
  intro h
  have htoNat := congrArg BitVec.toNat h
  have hpos := t.bytes_pos
  have hwidth : 1 < 2 ^ t.width := Nat.one_lt_two_pow (by rw [IntType.width]; omega)
  have hone : (t.ofInt 1).toNat = 1 := by
    show (BitVec.ofInt t.width ((1 : Nat) : Int)).toNat = 1
    rw [BitVec.ofInt_natCast, BitVec.toNat_ofNat, Nat.mod_eq_of_lt hwidth]
  rw [hone] at htoNat
  exact absurd htoNat (by simp)

/-- A condition is 0 if it does not hold. -/
theorem truth_ne_zero (t : IntType) (b : Bool) : (truth t b ≠ 0) ↔ b = true := by
  cases b with
  | false => exact iff_of_false (fun h => h (ofInt_zero t)) nofun
  | true => exact iff_of_true (one_ne_zero t) rfl

end CInt
