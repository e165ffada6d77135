import EsalsaMpi.Backend.ReduceDispatch

/-!
# Operations

An `operation` has a handle, the `op` of the library, and a function that combines what has
been received with what is there.  The functions of the predefined operations end in `FATAL`
where they have no case for a datatype, and `EMPI_OP_NULL` has no function at all.  Those that
`EMPI_Op_create` is given are the application's own.

Which cases there are does not depend on the platform (`isSome_function`), so the handles of
an operation and of a datatype say whether the function comes to its end
(`Operation.covers`).
-/

namespace EsalsaMpi

namespace ReduceOps

/-- The predefined datatypes in the order of their handles in `empi.h`, from 1 on. -/
def Datatype.predefined : List Datatype :=
  [.char, .short, .int, .long, .longLongInt, .signedChar, .unsignedChar, .unsignedShort,
    .unsigned, .unsignedLong, .unsignedLongLong, .float, .double, .longDouble, .wchar, .byte,
    .packed, .floatInt, .doubleInt, .longInt, .twoInt, .shortInt, .longDoubleInt, .integer,
    .real, .doublePrecision, .complex, .logical, .character, .doubleComplex, .integer1,
    .integer2, .integer4, .integer8, .real2, .real4, .real8, .real16, .twoReal,
    .twoDoublePrecision, .twoInteger]

/-- The predefined datatype with a handle. -/
def Datatype.ofHandle (handle : Int) : Option Datatype :=
  if handle < 1 then none else Datatype.predefined[handle.toNat - 1]?

/-- The integer types of C that all switches have. -/
def cIntegers : List Datatype :=
  [.char, .short, .int, .long, .longLongInt, .signedChar, .unsignedChar, .unsignedShort, .wchar,
    .unsigned, .unsignedLong, .unsignedLongLong]

/-- The floating point types. -/
def floats : List Datatype :=
  [.float, .real, .real4, .double, .doublePrecision, .real8, .longDouble, .real16]

/-- The cases in the switch of an operation's function. -/
def ReduceOp.cases : ReduceOp → List Datatype
  | .max | .min => cIntegers ++ [.integer2, .integer, .integer4, .integer8, .integer1] ++ floats
  | .sum | .prod =>
    cIntegers ++ [.integer2, .integer, .integer4, .integer8] ++ floats ++ [.complex, .doubleComplex]
  | .land | .lor | .lxor => cIntegers ++ [.logical]
  | .band | .bor | .bxor => cIntegers ++ [.integer, .byte]

/-- The cases in the switches of `EMPI_REDUCE_MAXLOC` and `EMPI_REDUCE_MINLOC`. -/
def locCases : List Datatype :=
  [.twoReal, .twoDoublePrecision, .twoInt, .twoInteger, .floatInt, .doubleInt, .longInt,
    .shortInt, .longDoubleInt]

/-- **The switches have these cases** on every platform. -/
theorem isSome_function (p : Platform) (op : ReduceOp) (type : Datatype) :
    (op.function p type).isSome = decide (type ∈ op.cases) := by
  cases op <;> cases type <;> rfl

/-- What is registered as the function of an operation. -/
inductive OpFunction where
  | null
  | reduce (op : ReduceOp)
  | maxloc
  | minloc
  | user
deriving DecidableEq, Repr

/-- `init_operations`, and `create_operation` for all other handles. -/
def OpFunction.ofHandle : Int → OpFunction
  | 0 => .null
  | 1 => .reduce .max
  | 2 => .reduce .min
  | 3 => .reduce .sum
  | 4 => .reduce .prod
  | 5 => .maxloc
  | 6 => .minloc
  | 7 => .reduce .bor
  | 8 => .reduce .band
  | 9 => .reduce .bxor
  | 10 => .reduce .lor
  | 11 => .reduce .land
  | 12 => .reduce .lxor
  | _ => .user

/-- The function can be called for the datatype with a handle. -/
def OpFunction.covers : OpFunction → Int → Bool
  | .null, _ => false
  | .reduce op, type => (Datatype.ofHandle type).any (· ∈ op.cases)
  | .maxloc, type | .minloc, type => (Datatype.ofHandle type).any (· ∈ locCases)
  | .user, _ => true

end ReduceOps

open ReduceOps Reductions

/-- `operation`: for the datatype with a handle, `combine` is what the library's `op` makes of
two buffers, and `merge` what `function` puts into the second one where it does not end in
`FATAL`. -/
structure Operation (α : Type) where
  handle : Int
  combine : Int → List α → List α → List α
  merge : Int → List α → List α → List α
  commute : Bool
  length_merge : ∀ type x y, (merge type x y).length = y.length

namespace Operation

variable {α : Type}

/-- `function` can be called for a datatype. -/
def covers (op : Operation α) (type : Int) : Bool := (OpFunction.ofHandle op.handle).covers type

/-- `function`: what the buffer `inoutvec` holds then; `none` is the end of the process. -/
def function (op : Operation α) (type : Int) (invec inoutvec : List α) : Option (List α) :=
  if op.covers type then some (op.merge type invec inoutvec) else none

/-- The operation is associative on buffers with `count` elements. -/
def Associates (op : Operation α) (type : Int) (count : Nat) : Prop :=
  Combines (op.combine type) {buf | buf.length = count}

/-- The operation is commutative on buffers with `count` elements. -/
def Commutes (op : Operation α) (type : Int) (count : Nat) : Prop :=
  ∀ {x y : List α}, x.length = count → y.length = count →
    op.combine type x y = op.combine type y x

/-- `function` does what the library's `op` does. -/
def Agrees (op : Operation α) (type : Int) (count : Nat) : Prop :=
  ∀ {x y : List α}, x.length = count → y.length = count →
    op.merge type x y = op.combine type x y

/-- An operation of `reduce_ops.c`, or of the application: a loop over the elements. -/
def elementwise (handle : Int) (f : α → α → α) (commute : Bool) : Operation α where
  handle := handle
  combine _ invec inoutvec := List.zipWith f invec inoutvec
  merge _ invec inoutvec := List.zipWith f invec inoutvec ++ inoutvec.drop invec.length
  commute := commute
  length_merge _ x y := by
    rw [List.length_append, List.length_zipWith, List.length_drop]
    omega

variable {op : Operation α} {f : α → α → α} {handle : Int} {commute : Bool} {type : Int}

theorem function_of_covers (h : op.covers type = true) (x y : List α) :
    op.function type x y = some (op.merge type x y) := if_pos h

theorem function_of_not_covers (h : ¬ op.covers type = true) (x y : List α) :
    op.function type x y = none := if_neg h

theorem associates_elementwise (hf : ∀ a b c, f (f a b) c = f a (f b c)) (type : Int)
    (count : Nat) : (elementwise handle f commute).Associates type count where
  closed := by
    intro x y hx hy
    show (List.zipWith f x y).length = count
    rw [List.length_zipWith, show x.length = count from hx, show y.length = count from hy,
      Nat.min_self]
  assoc := by
    intro x y z _ _ _
    show List.zipWith f (List.zipWith f x y) z = List.zipWith f x (List.zipWith f y z)
    apply List.ext_getElem
    · simp [Nat.min_assoc]
    · intro i _ _
      simp [hf]

theorem commutes_elementwise (hf : ∀ a b, f a b = f b a) (type : Int) (count : Nat) :
    (elementwise handle f commute).Commutes type count :=
  fun _ _ => List.zipWith_comm_of_comm hf

theorem agrees_elementwise (type : Int) (count : Nat) :
    (elementwise handle f commute).Agrees type count := by
  intro x y hx hy
  show List.zipWith f x y ++ y.drop x.length = List.zipWith f x y
  rw [hx, ← hy, List.drop_length, List.append_nil]

end Operation

end EsalsaMpi
