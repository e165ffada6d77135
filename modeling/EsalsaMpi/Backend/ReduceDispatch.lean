import EsalsaMpi.Backend.ReduceOps
import EsalsaMpi.Library.Wire
import Mathlib.Algebra.Group.Nat.Defs

/-!
# The types of predefined reductions

An operation has one function for all types, with a switch that calls the function made for
the type.  The head of `reduce_ops.c` lists the combinations that MPI 2.1 supports; another
one is fatal.

Not all of the list is there.  The switches for sums and products lack `EMPI_INTEGER1`, and
those for the operations on bits lack the Fortran integers with a size.  A logical of Fortran
is used as an `int` of C, although `boolean_to_logical` and `logical_to_boolean` are there to
convert it, and `Allreduce` even replaces it by `EMPI_INTEGER`, for which `LOR` has no case.
A `wchar_t` is used as an `unsigned short`.  All other combinations are as listed
(`covered_iff`).
-/

namespace EsalsaMpi

namespace ReduceOps

open CInt CInt.IntType Wire

/-- The predefined datatypes of `empi.h`. -/
inductive Datatype where
  | char
  | short
  | int
  | long
  | longLongInt
  | signedChar
  | unsignedChar
  | unsignedShort
  | unsigned
  | unsignedLong
  | unsignedLongLong
  | float
  | double
  | longDouble
  | wchar
  | byte
  | packed
  | floatInt
  | doubleInt
  | longInt
  | twoInt
  | shortInt
  | longDoubleInt
  | integer
  | real
  | doublePrecision
  | complex
  | logical
  | character
  | doubleComplex
  | integer1
  | integer2
  | integer4
  | integer8
  | real2
  | real4
  | real8
  | real16
  | twoReal
  | twoDoublePrecision
  | twoInteger
deriving DecidableEq, Repr

/-- The functions that call the function of an operation. -/
inductive Collective where
  | reduce
  | allreduce
deriving DecidableEq, Repr

/-- The arithmetic of a floating point type, on the bytes of its objects. -/
structure FloatFormat where
  size : Nat
  less : List UInt8 → List UInt8 → Bool
  add : List UInt8 → List UInt8 → List UInt8
  sub : List UInt8 → List UInt8 → List UInt8
  mul : List UInt8 → List UInt8 → List UInt8

/-- What `wchar_t` is. -/
inductive WcharType where
  | unsignedShort
  | int
  | unsigned
deriving DecidableEq, Repr

/-- What the compilers of a machine decide, and the values of `FORTRAN_TRUE` and
`FORTRAN_FALSE` that `init_fortran_logical_` returns. -/
structure Platform where
  order : ByteOrder
  charSigned : Bool
  wideLong : Bool
  wchar : WcharType
  float : FloatFormat
  double : FloatFormat
  longDouble : FloatFormat
  fortranTrue : int.Value
  fortranFalse : int.Value
  true_ne_false : fortranTrue ≠ fortranFalse

/-- `signed char`. -/
def signedChar : IntType := ⟨1, true, by decide⟩

/-- `unsigned char`. -/
def unsignedChar : IntType := ⟨1, false, by decide⟩

/-- `short`. -/
def short : IntType := ⟨2, true, by decide⟩

/-- `unsigned short`. -/
def unsignedShort : IntType := ⟨2, false, by decide⟩

/-- `unsigned`. -/
def unsigned : IntType := ⟨4, false, int.bytes_pos⟩

/-- `long long`. -/
def longLong : IntType := ⟨8, true, by decide⟩

/-- `unsigned long long`. -/
def unsignedLongLong : IntType := ⟨8, false, by decide⟩

/-- `char`. -/
def Platform.char (p : Platform) : IntType := if p.charSigned then signedChar else unsignedChar

/-- `long`. -/
def Platform.long (p : Platform) : IntType := if p.wideLong then longLong else int

/-- `unsigned long`. -/
def Platform.unsignedLong (p : Platform) : IntType :=
  if p.wideLong then unsignedLongLong else unsigned

/-- `wchar_t`. -/
def WcharType.intType : WcharType → IntType
  | .unsignedShort => ReduceOps.unsignedShort
  | .int => IntType.int
  | .unsigned => ReduceOps.unsigned

/-- The number with the given bytes, the least significant one first. -/
def natOf : List UInt8 → Nat
  | [] => 0
  | b :: bs => b.toNat + 256 * natOf bs

/-- The last `n` bytes of a number, the least significant one first. -/
def bytesOfNat : Nat → Nat → List UInt8
  | 0, _ => []
  | n + 1, x => UInt8.ofNat x :: bytesOfNat n (x / 256)

/-- The object of a type with the given bytes in memory. -/
def load (o : ByteOrder) (t : IntType) (bytes : List UInt8) : t.Value :=
  BitVec.ofNat t.width (natOf (match o with
    | .little => bytes
    | .big => bytes.reverse))

/-- The bytes of an object in memory. -/
def store (o : ByteOrder) (t : IntType) (x : t.Value) : List UInt8 :=
  match o with
  | .little => bytesOfNat t.bytes x.toNat
  | .big => (bytesOfNat t.bytes x.toNat).reverse

/-- A function made for a type: the size of an element, and what is computed of an element of
`invec` and one of `inoutvec`. -/
structure Kernel where
  size : Nat
  combine : List UInt8 → List UInt8 → List UInt8

/-- The elements of a vector in memory. -/
def elements (size len : Nat) (bytes : List UInt8) : List (List UInt8) :=
  (List.range len).map fun i => (bytes.drop (i * size)).take size

/-- A call: what `inoutvec` holds afterwards. -/
def Kernel.call (k : Kernel) (invec inoutvec : List UInt8) (len : Nat) : List UInt8 :=
  (reduceFunc k.combine (elements k.size len invec) (elements k.size len inoutvec) len).flatten ++
    inoutvec.drop (len * k.size)

/-- `CALL_FUNC` for an integer type. -/
def callFunc (o : ByteOrder) (op : ReduceOp) (t : IntType) : Kernel where
  size := t.bytes
  combine a b := store o t (op.apply t (load o t a) (load o t b))

/-- `CALL_FUNC` with `MAX`, for a floating point type. -/
def callFloatMax (f : FloatFormat) : Kernel := ⟨f.size, fun a b => if f.less b a then a else b⟩

/-- `CALL_FUNC` with `MIN`, for a floating point type. -/
def callFloatMin (f : FloatFormat) : Kernel := ⟨f.size, fun a b => if f.less a b then a else b⟩

/-- `CALL_FUNC` with `SUM`, for a floating point type. -/
def callFloatSum (f : FloatFormat) : Kernel := ⟨f.size, f.add⟩

/-- `CALL_FUNC` with `PROD`, for a floating point type. -/
def callFloatProd (f : FloatFormat) : Kernel := ⟨f.size, f.mul⟩

/-- `CALL_COMPLEX_SUM_FUNC`. -/
def callComplexSum (f : FloatFormat) : Kernel where
  size := 2 * f.size
  combine b a :=
    f.add (a.take f.size) (b.take f.size) ++ f.add (a.drop f.size) (b.drop f.size)

/-- `CALL_COMPLEX_PROD_FUNC`. -/
def callComplexProd (f : FloatFormat) : Kernel where
  size := 2 * f.size
  combine b a :=
    f.sub (f.mul (a.take f.size) (b.take f.size)) (f.mul (a.drop f.size) (b.drop f.size)) ++
      f.add (f.mul (a.drop f.size) (b.take f.size)) (f.mul (a.take f.size) (b.drop f.size))

section

variable (p : Platform)

/-- The switch of `EMPI_REDUCE_MAX` and `EMPI_REDUCE_MIN`; `none` is the default branch. -/
def reduceMaxMin (op : ReduceOp) (callFloat : FloatFormat → Kernel) : Datatype → Option Kernel
  | .char => callFunc p.order op p.char
  | .short | .integer2 => callFunc p.order op short
  | .int | .integer | .integer4 => callFunc p.order op IntType.int
  | .long => callFunc p.order op p.long
  | .longLongInt | .integer8 => callFunc p.order op longLong
  | .signedChar | .integer1 => callFunc p.order op signedChar
  | .unsignedChar => callFunc p.order op unsignedChar
  | .unsignedShort | .wchar => callFunc p.order op unsignedShort
  | .unsigned => callFunc p.order op unsigned
  | .unsignedLong => callFunc p.order op p.unsignedLong
  | .unsignedLongLong => callFunc p.order op unsignedLongLong
  | .float | .real | .real4 => callFloat p.float
  | .double | .doublePrecision | .real8 => callFloat p.double
  | .longDouble | .real16 => callFloat p.longDouble
  | _ => none

/-- `EMPI_REDUCE_MAX`. -/
def empiReduceMax : Datatype → Option Kernel := reduceMaxMin p .max callFloatMax

/-- `EMPI_REDUCE_MIN`. -/
def empiReduceMin : Datatype → Option Kernel := reduceMaxMin p .min callFloatMin

/-- The switch of `EMPI_REDUCE_SUM` and `EMPI_REDUCE_PROD`. -/
def reduceSumProd (op : ReduceOp) (callFloat callComplex : FloatFormat → Kernel) :
    Datatype → Option Kernel
  | .char => callFunc p.order op p.char
  | .short | .integer2 => callFunc p.order op short
  | .int | .integer | .integer4 => callFunc p.order op IntType.int
  | .long => callFunc p.order op p.long
  | .longLongInt | .integer8 => callFunc p.order op longLong
  | .signedChar => callFunc p.order op signedChar
  | .unsignedChar => callFunc p.order op unsignedChar
  | .unsignedShort | .wchar => callFunc p.order op unsignedShort
  | .unsigned => callFunc p.order op unsigned
  | .unsignedLong => callFunc p.order op p.unsignedLong
  | .unsignedLongLong => callFunc p.order op unsignedLongLong
  | .float | .real | .real4 => callFloat p.float
  | .double | .doublePrecision | .real8 => callFloat p.double
  | .longDouble | .real16 => callFloat p.longDouble
  | .complex => callComplex p.float
  | .doubleComplex => callComplex p.double
  | _ => none

/-- `EMPI_REDUCE_SUM`. -/
def empiReduceSum : Datatype → Option Kernel := reduceSumProd p .sum callFloatSum callComplexSum

/-- `EMPI_REDUCE_PROD`. -/
def empiReduceProd : Datatype → Option Kernel :=
  reduceSumProd p .prod callFloatProd callComplexProd

/-- The switch of `EMPI_REDUCE_LAND`, `EMPI_REDUCE_LOR` and `EMPI_REDUCE_LXOR`. -/
def reduceLogical (op : ReduceOp) : Datatype → Option Kernel
  | .char => callFunc p.order op p.char
  | .short => callFunc p.order op short
  | .int | .logical => callFunc p.order op IntType.int
  | .long => callFunc p.order op p.long
  | .longLongInt => callFunc p.order op longLong
  | .signedChar => callFunc p.order op signedChar
  | .unsignedChar => callFunc p.order op unsignedChar
  | .unsignedShort | .wchar => callFunc p.order op unsignedShort
  | .unsigned => callFunc p.order op unsigned
  | .unsignedLong => callFunc p.order op p.unsignedLong
  | .unsignedLongLong => callFunc p.order op unsignedLongLong
  | _ => none

/-- `EMPI_REDUCE_LAND`. -/
def empiReduceLand : Datatype → Option Kernel := reduceLogical p .land

/-- `EMPI_REDUCE_LOR`. -/
def empiReduceLor : Datatype → Option Kernel := reduceLogical p .lor

/-- `EMPI_REDUCE_LXOR`. -/
def empiReduceLxor : Datatype → Option Kernel := reduceLogical p .lxor

/-- The switch of `EMPI_REDUCE_BAND`, `EMPI_REDUCE_BOR` and `EMPI_REDUCE_BXOR`. -/
def reduceBits (op : ReduceOp) : Datatype → Option Kernel
  | .char => callFunc p.order op p.char
  | .short => callFunc p.order op short
  | .int | .integer => callFunc p.order op IntType.int
  | .long => callFunc p.order op p.long
  | .longLongInt => callFunc p.order op longLong
  | .signedChar => callFunc p.order op signedChar
  | .unsignedChar | .byte => callFunc p.order op unsignedChar
  | .unsignedShort | .wchar => callFunc p.order op unsignedShort
  | .unsigned => callFunc p.order op unsigned
  | .unsignedLong => callFunc p.order op p.unsignedLong
  | .unsignedLongLong => callFunc p.order op unsignedLongLong
  | _ => none

/-- `EMPI_REDUCE_BAND`. -/
def empiReduceBand : Datatype → Option Kernel := reduceBits p .band

/-- `EMPI_REDUCE_BOR`. -/
def empiReduceBor : Datatype → Option Kernel := reduceBits p .bor

/-- `EMPI_REDUCE_BXOR`. -/
def empiReduceBxor : Datatype → Option Kernel := reduceBits p .bxor

/-- The function that `init_operations` registers. -/
def ReduceOp.function : ReduceOp → Datatype → Option Kernel
  | .max => empiReduceMax p
  | .min => empiReduceMin p
  | .sum => empiReduceSum p
  | .prod => empiReduceProd p
  | .land => empiReduceLand p
  | .lor => empiReduceLor p
  | .lxor => empiReduceLxor p
  | .band => empiReduceBand p
  | .bor => empiReduceBor p
  | .bxor => empiReduceBxor p

/-- The type with which the function is called: in `Allreduce`, 24 where the operation is 10
and the type 28. -/
def Collective.calledType : Collective → ReduceOp → Datatype → Datatype
  | .allreduce, .lor, .logical => .integer
  | _, _, type => type

/-- The call in a collective operation; `none` is fatal. -/
def Collective.call (c : Collective) (op : ReduceOp) (type : Datatype) (invec inoutvec : List UInt8)
    (len : Nat) : Option (List UInt8) :=
  (op.function p (c.calledType op type)).map fun k => k.call invec inoutvec len

/-- C integer. -/
def cInteger : Datatype → Option IntType
  | .char => p.char
  | .short => short
  | .int => IntType.int
  | .long => p.long
  | .longLongInt => longLong
  | .signedChar => signedChar
  | .unsignedChar => unsignedChar
  | .unsignedShort => unsignedShort
  | .unsigned => unsigned
  | .unsignedLong => p.unsignedLong
  | .unsignedLongLong => unsignedLongLong
  | .wchar => p.wchar.intType
  | _ => none

/-- Fortran integer. -/
def fortranInteger : Datatype → Option IntType
  | .integer | .integer4 => IntType.int
  | .integer1 => signedChar
  | .integer2 => short
  | .integer8 => longLong
  | _ => none

/-- Floating point.  `init_datatypes` leaves `EMPI_REAL2` out, and has `MPI_LONG_DOUBLE` for
`EMPI_REAL16`. -/
def floatingPoint : Datatype → Option FloatFormat
  | .float | .real | .real4 => p.float
  | .double | .doublePrecision | .real8 => p.double
  | .longDouble | .real16 => p.longDouble
  | _ => none

/-- Complex, by the type of the parts. -/
def complex : Datatype → Option FloatFormat
  | .complex => p.float
  | .doubleComplex => p.double
  | _ => none

/-- `boolean_to_logical`. -/
def booleanToLogical (b : Bool) : int.Value := if b then p.fortranTrue else p.fortranFalse

/-- `logical_to_boolean`. -/
def logicalToBoolean (l : int.Value) : Bool := l = p.fortranTrue

/-- A logical operation on the logicals of Fortran. -/
def logicalKernel (f : Bool → Bool → Bool) : Kernel where
  size := IntType.int.bytes
  combine a b := store p.order IntType.int (booleanToLogical p
    (f (logicalToBoolean p (load p.order IntType.int a))
      (logicalToBoolean p (load p.order IntType.int b))))

/-- What an operation should do with elements of the type itself, for the combinations that
are listed. -/
def ReduceOp.own (op : ReduceOp) (type : Datatype) : Option Kernel :=
  let integer := ((cInteger p type).or (fortranInteger type)).map (callFunc p.order op)
  match op with
  | .max => integer.or ((floatingPoint p type).map callFloatMax)
  | .min => integer.or ((floatingPoint p type).map callFloatMin)
  | .sum => (integer.or ((floatingPoint p type).map callFloatSum)).or
      ((complex p type).map callComplexSum)
  | .prod => (integer.or ((floatingPoint p type).map callFloatProd)).or
      ((complex p type).map callComplexProd)
  | .land => if type = .logical then logicalKernel p (· && ·) else
      (cInteger p type).map (callFunc p.order op)
  | .lor => if type = .logical then logicalKernel p (· || ·) else
      (cInteger p type).map (callFunc p.order op)
  | .lxor => if type = .logical then logicalKernel p (fun a b => (a && !b) || (!a && b)) else
      (cInteger p type).map (callFunc p.order op)
  | .band | .bor | .bxor => if type = .byte then callFunc p.order op unsignedChar else integer

/-- A vector of `len` elements.  Logicals have one of their two values. -/
def IsVector (type : Datatype) (k : Kernel) (len : Nat) (bytes : List UInt8) : Prop :=
  bytes.length = len * k.size ∧
    (type = .logical → ∀ e ∈ elements k.size len bytes,
      load p.order IntType.int e = p.fortranTrue ∨ load p.order IntType.int e = p.fortranFalse)

/-- **A combination is covered**: if it is listed, the call is not fatal and reduces the
elements of all vectors at the width of their type. -/
def Covered (c : Collective) (op : ReduceOp) (type : Datatype) : Prop :=
  ∀ k, op.own p type = some k → ∀ len invec inoutvec,
    IsVector p type k len invec → IsVector p type k len inoutvec →
      c.call p op type invec inoutvec len = some (k.call invec inoutvec len)

/-- The combinations that are as listed. -/
def AsListed (c : Collective) (op : ReduceOp) : Datatype → Prop
  | .integer1 => op ∉ [.sum, .prod, .band, .bor, .bxor]
  | .integer2 | .integer4 | .integer8 => op ∉ [.band, .bor, .bxor]
  | .logical => op ∈ [.land, .lor, .lxor] →
      (p.fortranTrue = int.ofInt 1 ∧ p.fortranFalse = int.ofInt 0) ∧
        ¬ (c = .allreduce ∧ op = .lor)
  | .wchar => p.wchar = .unsignedShort
  | _ => True

end

variable {p : Platform} {c : Collective} {op : ReduceOp} {type : Datatype} {k : Kernel}

/-- The call is not fatal, and is that of the type itself. -/
theorem covered_of_function (h : ∀ k, op.own p type = some k →
    op.function p (c.calledType op type) = some k) : Covered p c op type := by
  intro k hk len invec inoutvec _ _
  rw [Collective.call, h k hk]
  rfl

/-- A combination that is listed without a case for it is fatal. -/
theorem not_covered_of_none (hown : op.own p type = some k)
    (hnone : op.function p (c.calledType op type) = none) : ¬ Covered p c op type := by
  intro h
  have hempty : IsVector p type k 0 [] :=
    ⟨(Nat.zero_mul _).symm, fun _ e he => nomatch he⟩
  have hcall := h k hown 0 [] [] hempty hempty
  rw [Collective.call, hnone] at hcall
  cases hcall

/-- A vector of one element. -/
theorem elements_one {size : Nat} {x : List UInt8} (h : x.length = size) :
    elements size 1 x = [x] := by
  rw [elements, List.range_one, List.map_singleton, Nat.zero_mul, List.drop_zero, ← h,
    List.take_length]

/-- A call for one element. -/
theorem call_one (k : Kernel) {a b : List UInt8} (ha : a.length = k.size) (hb : b.length = k.size) :
    k.call a b 1 = k.combine a b := by
  have hcombine := @reduceFunc_eq _ k.combine [a] [b] 1 rfl rfl
  rw [Kernel.call, elements_one ha, elements_one hb, hcombine, Nat.one_mul, ← hb,
    List.drop_length, List.append_nil]
  exact List.append_nil _

theorem calledType_of_ne (h : type ≠ .logical) : c.calledType op type = type := by
  unfold Collective.calledType
  split
  · exact absurd rfl h
  · rfl

/-- **The switches** have the right case for the type, apart from logicals and `wchar_t`. -/
theorem function_of_asListed (h : AsListed p c op type) (hlogical : type ≠ .logical)
    (hwchar : type ≠ .wchar) (hown : op.own p type = some k) : op.function p type = some k := by
  cases type with
  | integer1 =>
      have hop : op ∉ [.sum, .prod, .band, .bor, .bxor] := h
      cases op <;> first | exact hown | exact absurd (by decide) hop
  | integer2 | integer4 | integer8 =>
      have hop : op ∉ [.band, .bor, .bxor] := h
      cases op <;> first | exact hown | exact absurd (by decide) hop
  | logical => exact absurd rfl hlogical
  | wchar => exact absurd rfl hwchar
  | _ => cases op <;> exact hown

/-- Where `wchar_t` is an `unsigned short`, its cases are right. -/
theorem function_wchar (h : p.wchar = .unsignedShort) (hown : op.own p .wchar = some k) :
    op.function p .wchar = some k := by
  cases p
  cases h
  cases op <;> exact hown

/-- The bytes of a number. -/
theorem natOf_bytesOfNat (n x : Nat) : natOf (bytesOfNat n x) = x % 256 ^ n := by
  induction n generalizing x with
  | zero => rw [Nat.pow_zero, Nat.mod_one]; rfl
  | succ n ih =>
      have hpow : 256 ^ (n + 1) = 256 * 256 ^ n := Nat.pow_succ'
      rw [bytesOfNat, natOf, ih, UInt8.toNat_ofNat', hpow]
      exact Nat.mod_mul.symm

theorem length_bytesOfNat (n x : Nat) : (bytesOfNat n x).length = n := by
  induction n generalizing x with
  | zero => rfl
  | succ n ih => rw [bytesOfNat, List.length_cons, ih]

theorem length_store (o : ByteOrder) (t : IntType) (x : t.Value) :
    (store o t x).length = t.bytes := by
  cases o with
  | little => exact length_bytesOfNat _ _
  | big => exact (List.length_reverse).trans (length_bytesOfNat _ _)

/-- A machine reads back what it has stored. -/
theorem load_store (o : ByteOrder) (t : IntType) (x : t.Value) : load o t (store o t x) = x := by
  have hlt : x.toNat < 256 ^ t.bytes := by
    have hpow : (256 : Nat) ^ t.bytes = 2 ^ t.width := by
      rw [IntType.width, Nat.pow_mul]
    rw [hpow]
    exact x.isLt
  have hnat : natOf (bytesOfNat t.bytes x.toNat) = x.toNat := by
    rw [natOf_bytesOfNat, Nat.mod_eq_of_lt hlt]
  cases o with
  | little =>
      show BitVec.ofNat t.width (natOf (bytesOfNat t.bytes x.toNat)) = x
      rw [hnat, BitVec.ofNat_toNat, BitVec.setWidth_eq]
  | big =>
      show BitVec.ofNat t.width (natOf (bytesOfNat t.bytes x.toNat).reverse.reverse) = x
      rw [List.reverse_reverse, hnat, BitVec.ofNat_toNat, BitVec.setWidth_eq]

/-- The logicals that the function for `int` keeps right. -/
def KeepsLogicals (p : Platform) (op : ReduceOp) (f : Bool → Bool → Bool) : Prop :=
  ∀ x y, (x = p.fortranTrue ∨ x = p.fortranFalse) → (y = p.fortranTrue ∨ y = p.fortranFalse) →
    op.apply IntType.int x y =
      booleanToLogical p (f (logicalToBoolean p x) (logicalToBoolean p y))

/-- The logicals are right if and only if they are 1 and 0. -/
theorem keepsLogicals_iff {f : Bool → Bool → Bool}
    (hop : ∀ q a b, op.macro q a b = truth q (f (a ≠ 0) (b ≠ 0)))
    (hf : f = (· && ·) ∨ f = (· || ·) ∨ f = fun a b => (a && !b) || (!a && b)) :
    KeepsLogicals p op f ↔ p.fortranTrue = int.ofInt 1 ∧ p.fortranFalse = int.ofInt 0 := by
  have hne := p.true_ne_false
  constructor
  · intro h
    have htrue : logicalToBoolean p p.fortranTrue = true := decide_eq_true rfl
    have hfalse : logicalToBoolean p p.fortranFalse = false := decide_eq_false hne.symm
    have hTT := h _ _ (Or.inl rfl) (Or.inl rfl)
    have hTF := h _ _ (Or.inl rfl) (Or.inr rfl)
    have hFF := h _ _ (Or.inr rfl) (Or.inr rfl)
    simp only [apply_truth hop, htrue, hfalse] at hTT hTF hFF
    generalize decide (p.fortranTrue ≠ 0) = a at hTT hTF hFF
    generalize decide (p.fortranFalse ≠ 0) = b at hTT hTF hFF
    rcases hf with rfl | rfl | rfl <;> cases a <;> cases b <;>
      simp_all [booleanToLogical, truth]
  · intro ⟨htrue, hfalse⟩ x y hx hy
    have hread : ∀ z, (z = p.fortranTrue ∨ z = p.fortranFalse) →
        decide (z ≠ 0) = logicalToBoolean p z := by
      intro z hz
      rw [logicalToBoolean, htrue]
      rcases hz with hz | hz
      · rw [hz, htrue]
        rfl
      · rw [hz, hfalse]
        rfl
    rw [apply_truth hop, hread x hx, hread y hy, truth, booleanToLogical, htrue, hfalse]
    split <;> rfl

/-- Calls of functions that agree on the elements. -/
theorem call_congr {k k' : Kernel} {invec inoutvec : List UInt8} {len : Nat}
    (hsize : k'.size = k.size)
    (h : ∀ a ∈ elements k.size len invec, ∀ b ∈ elements k.size len inoutvec,
      k'.combine a b = k.combine a b) : k'.call invec inoutvec len = k.call invec inoutvec len := by
  have hlength : ∀ bytes, (elements k.size len bytes).length = len := fun bytes => by
    rw [elements, List.length_map, List.length_range]
  have hcongr : ∀ l l' : List (List UInt8), (∀ a ∈ l, ∀ b ∈ l', k'.combine a b = k.combine a b) →
      List.zipWith k'.combine l l' = List.zipWith k.combine l l' := by
    intro l
    induction l with
    | nil => exact fun _ _ => rfl
    | cons a l ih =>
        intro l' h
        cases l' with
        | nil => rfl
        | cons b l' =>
            rw [List.zipWith_cons_cons, List.zipWith_cons_cons,
              h a List.mem_cons_self b List.mem_cons_self,
              ih l' fun x hx y hy => h x (List.mem_cons_of_mem a hx) y (List.mem_cons_of_mem b hy)]
  rw [Kernel.call, Kernel.call, hsize, reduceFunc_eq k'.combine (hlength _) (hlength _),
    reduceFunc_eq k.combine (hlength _) (hlength _), hcongr _ _ h]

/-- A single logical is a vector. -/
theorem isVector_store {f : Bool → Bool → Bool} {x : int.Value}
    (hx : x = p.fortranTrue ∨ x = p.fortranFalse) :
    IsVector p .logical (logicalKernel p f) 1 (store p.order IntType.int x) := by
  have hlength : (store p.order IntType.int x).length = IntType.int.bytes := length_store _ _ _
  refine ⟨hlength.trans (Nat.one_mul _).symm, fun _ e he => ?_⟩
  have hmem : e ∈ elements IntType.int.bytes 1 (store p.order IntType.int x) := he
  rw [elements_one hlength] at hmem
  rw [List.mem_singleton.mp hmem, load_store]
  exact hx

/-- **Logicals**, where the function for `int` is called for them. -/
theorem covered_logical_iff {f : Bool → Bool → Bool}
    (hown : op.own p .logical = some (logicalKernel p f))
    (hfunction : op.function p (c.calledType op .logical) =
      some (callFunc p.order op IntType.int)) :
    Covered p c op .logical ↔ KeepsLogicals p op f := by
  constructor
  · intro h x y hx hy
    have hcall := h _ hown 1 _ _ (isVector_store hx) (isVector_store hy)
    rw [Collective.call, hfunction, Option.map_some] at hcall
    have hx' : (store p.order IntType.int x).length = IntType.int.bytes := length_store _ _ _
    have hy' : (store p.order IntType.int y).length = IntType.int.bytes := length_store _ _ _
    have hcalled := call_one (callFunc p.order op IntType.int) hx' hy'
    have howned := call_one (logicalKernel p f) hx' hy'
    have hload := congrArg (load p.order IntType.int)
      ((hcalled.symm.trans (Option.some.inj hcall)).trans howned)
    simp only [callFunc, logicalKernel, load_store] at hload
    exact hload
  · intro h k hk len invec inoutvec hin hinout
    obtain rfl := Option.some.inj (hown.symm.trans hk)
    rw [Collective.call, hfunction, Option.map_some]
    refine congrArg some (call_congr rfl fun a ha b hb => ?_)
    exact congrArg (store p.order IntType.int) (h _ _ (hin.2 rfl a ha) (hinout.2 rfl b hb))

/-- An element of each vector for which the last two bytes of a wide `wchar_t` matter. -/
def wideElements : ReduceOp → List UInt8 × List UInt8
  | .max | .sum | .bor | .bxor => ([1, 1, 1, 1], [0, 0, 0, 0])
  | _ => ([0, 0, 0, 0], [1, 1, 1, 1])

/-- The function for `unsigned short` leaves them as they are. -/
theorem wide_ne (o : ByteOrder) (op : ReduceOp) {t : IntType} (ht : t = IntType.int ∨ t = unsigned) :
    (callFunc o op unsignedShort).call (wideElements op).1 (wideElements op).2 1 ≠
      (callFunc o op t).call (wideElements op).1 (wideElements op).2 1 := by
  rcases ht with rfl | rfl <;> cases o <;> cases op <;> decide

/-- A `wchar_t` that is wider than an `unsigned short`. -/
theorem not_covered_wchar {t : IntType} (ht : t = IntType.int ∨ t = unsigned)
    (hwchar : p.wchar.intType = t) : ¬ Covered p c op .wchar := by
  intro h
  have hown : op.own p .wchar = some (callFunc p.order op t) := by
    rw [← hwchar]
    cases op <;> rfl
  have hfunction : op.function p (c.calledType op .wchar) =
      some (callFunc p.order op unsignedShort) := by
    rw [calledType_of_ne (by decide)]
    cases op <;> rfl
  have hvectors : IsVector p .wchar (callFunc p.order op t) 1 (wideElements op).1 ∧
      IsVector p .wchar (callFunc p.order op t) 1 (wideElements op).2 := by
    constructor
    · refine ⟨?_, nofun⟩
      rcases ht with rfl | rfl <;> cases op <;> rfl
    · refine ⟨?_, nofun⟩
      rcases ht with rfl | rfl <;> cases op <;> rfl
  have hcall := h _ hown 1 _ _ hvectors.1 hvectors.2
  rw [Collective.call, hfunction, Option.map_some] at hcall
  exact wide_ne p.order op ht (Option.some.inj hcall)

/-- A combination that is covered has a case. -/
theorem asListed_of_covered (h : Covered p c op type) (hlogical : type ≠ .logical)
    (hwchar : type ≠ .wchar) : AsListed p c op type := by
  have hcase : ∀ k, op.own p type = some k → op.function p type ≠ none := by
    intro k hk hnone
    exact not_covered_of_none hk ((calledType_of_ne hlogical).symm ▸ hnone) h
  cases type with
  | integer1 | integer2 | integer4 | integer8 =>
      intro hop
      cases op <;> first | exact hcase _ rfl rfl | exact absurd hop (by decide)
  | logical => exact absurd rfl hlogical
  | wchar => exact absurd rfl hwchar
  | _ => trivial

/-- Logicals. -/
theorem covered_logical : Covered p c op .logical ↔ AsListed p c op .logical := by
  have hkeeps := fun f => @keepsLogicals_iff p op f
  cases op with
  | land =>
      have hfunction : ReduceOp.function p .land (c.calledType .land .logical) =
          some (callFunc p.order .land IntType.int) := by
        cases c <;> rfl
      rw [covered_logical_iff rfl hfunction, hkeeps _ (fun _ _ _ => rfl) (Or.inl rfl)]
      simp [AsListed]
  | lxor =>
      have hfunction : ReduceOp.function p .lxor (c.calledType .lxor .logical) =
          some (callFunc p.order .lxor IntType.int) := by
        cases c <;> rfl
      rw [covered_logical_iff rfl hfunction, hkeeps _ (fun _ _ _ => rfl) (Or.inr (Or.inr rfl))]
      simp [AsListed]
  | lor =>
      cases c with
      | reduce =>
          rw [covered_logical_iff rfl rfl, hkeeps _ (fun _ _ _ => rfl) (Or.inr (Or.inl rfl))]
          simp [AsListed]
      | allreduce =>
          have hfatal : ReduceOp.function p .lor
              (Collective.allreduce.calledType .lor .logical) = none := rfl
          refine iff_of_false (not_covered_of_none rfl hfatal) fun h => ?_
          exact (h (by decide)).2 ⟨rfl, rfl⟩
  | _ => exact iff_of_true (fun _ hk => nomatch hk) (fun hop => absurd hop (by decide))

/-- `wchar_t`. -/
theorem covered_wchar : Covered p c op .wchar ↔ AsListed p c op .wchar := by
  constructor
  · intro h
    show p.wchar = .unsignedShort
    cases hwchar : p.wchar with
    | unsignedShort => rfl
    | int => exact absurd h (not_covered_wchar (Or.inl rfl) (congrArg WcharType.intType hwchar))
    | unsigned =>
        exact absurd h (not_covered_wchar (Or.inr rfl) (congrArg WcharType.intType hwchar))
  · intro h
    refine covered_of_function fun k hk => ?_
    rw [calledType_of_ne (by decide)]
    exact function_wchar h hk

/-- **The listed combinations.**  For all combinations of an operation and a type, in `Reduce`
and in `Allreduce`: if the combination is listed, all vectors are reduced at the width of the
type, and no call is fatal, if and only if it is none of the ones without a case, logicals
are 1 and 0 and not replaced, and a `wchar_t` is an `unsigned short`. -/
theorem covered_iff (p : Platform) (c : Collective) (op : ReduceOp) (type : Datatype) :
    Covered p c op type ↔ AsListed p c op type := by
  by_cases hlogical : type = .logical
  · subst hlogical
    exact covered_logical
  · by_cases hwchar : type = .wchar
    · subst hwchar
      exact covered_wchar
    · constructor
      · exact fun h => asListed_of_covered h hlogical hwchar
      · intro h
        refine covered_of_function fun k hk => ?_
        rw [calledType_of_ne hlogical]
        exact function_of_asListed h hlogical hwchar hk

/-- A machine with the wide `wchar_t` and the logicals of many compilers for Linux.  Its
floating point numbers do not matter here. -/
def linux : Platform where
  order := .little
  charSigned := true
  wideLong := true
  wchar := .int
  float := ⟨4, fun _ _ => false, fun a _ => a, fun a _ => a, fun a _ => a⟩
  double := ⟨8, fun _ _ => false, fun a _ => a, fun a _ => a, fun a _ => a⟩
  longDouble := ⟨16, fun _ _ => false, fun a _ => a, fun a _ => a, fun a _ => a⟩
  fortranTrue := int.ofInt 1
  fortranFalse := int.ofInt 0
  true_ne_false := by decide

/-- A sum of `EMPI_INTEGER1` is listed, and fatal. -/
theorem not_covered_sum_integer1 :
    ReduceOp.sum.own linux .integer1 = some (callFunc .little .sum signedChar) ∧
      Collective.reduce.call linux .sum .integer1 [1] [2] 1 = none ∧
      ¬ Covered linux .reduce .sum .integer1 :=
  ⟨rfl, rfl, not_covered_of_none rfl rfl⟩

end ReduceOps

end EsalsaMpi
