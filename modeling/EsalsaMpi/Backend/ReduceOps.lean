import EsalsaMpi.Library.CIntegers
import EsalsaMpi.Library.Reductions
import Mathlib.Data.Prod.Lex
import Mathlib.Order.MinMax

/-!
# Predefined reductions

The macros of `reduce_ops.c` and the functions that they make: a loop over two vectors that
combines the elements at one place, and stores the result in the second vector.

`Reduce` and `Allreduce` combine the vectors of the clusters in the order in which the
coordinators are listed, each cluster in its own.  For integers of any type this is right:
every function is commutative and associative on vectors of one length
(`reorderable_integers`), so the order does not matter (`reduction_eq_of_perm`).
-/

namespace EsalsaMpi

namespace ReduceOps

open CInt CInt.IntType

/-- The operations that are made with `REDUCE_FUNC`. -/
inductive ReduceOp where
  | max
  | min
  | sum
  | prod
  | land
  | lor
  | lxor
  | band
  | bor
  | bxor
deriving DecidableEq, Repr

section

variable (p : IntType) (a b : p.Value)

/-- `MACRO_MAX`. -/
def macroMax : p.Value := if p.toInt a > p.toInt b then a else b

/-- `MACRO_MIN`. -/
def macroMin : p.Value := if p.toInt a < p.toInt b then a else b

/-- `MACRO_SUM`. -/
def macroSum : p.Value := a + b

/-- `MACRO_PROD`. -/
def macroProd : p.Value := a * b

/-- `MACRO_LAND`. -/
def macroLand : p.Value := truth p (a ≠ 0 && b ≠ 0)

/-- `MACRO_LOR`. -/
def macroLor : p.Value := truth p (a ≠ 0 || b ≠ 0)

/-- `MACRO_LXOR`. -/
def macroLxor : p.Value := truth p ((a ≠ 0 && !(b ≠ 0)) || (!(a ≠ 0) && b ≠ 0))

/-- `MACRO_BAND`. -/
def macroBand : p.Value := a &&& b

/-- `MACRO_BOR`. -/
def macroBor : p.Value := a ||| b

/-- `MACRO_BXOR`. -/
def macroBxor : p.Value := a ^^^ b

end

/-- The macro of an operation, for operands that have been promoted. -/
def ReduceOp.macro : ReduceOp → (p : IntType) → p.Value → p.Value → p.Value
  | .max => macroMax
  | .min => macroMin
  | .sum => macroSum
  | .prod => macroProd
  | .land => macroLand
  | .lor => macroLor
  | .lxor => macroLxor
  | .band => macroBand
  | .bor => macroBor
  | .bxor => macroBxor

/-- What is assigned to an element of the second vector. -/
def ReduceOp.apply (op : ReduceOp) (t : IntType) : t.Value → t.Value → t.Value :=
  binary t op.macro

/-- The rounds of the loop of `REDUCE_FUNC` from place `i` on. -/
def reduceFrom {α : Type} (f : α → α → α) (invec : List α) : Nat → Nat → List α → List α
  | 0, _, inoutvec => inoutvec
  | n + 1, i, inoutvec =>
    match invec[i]?, inoutvec[i]? with
    | some a, some b => reduceFrom f invec n (i + 1) (inoutvec.set i (f a b))
    | _, _ => inoutvec

/-- The functions of `REDUCE_FUNC`, `MAXLOC_FUNC` and `MINLOC_FUNC`: what `inoutvec` holds
afterwards. -/
def reduceFunc {α : Type} (f : α → α → α) (invec inoutvec : List α) (len : Nat) : List α :=
  reduceFrom f invec len 0 inoutvec

/-- A value with its location: `empi_2int_type`, `empi_shortint_type` and
`empi_longint_type`. -/
structure ValueLoc (t : IntType) where
  value : t.Value
  loc : int.Value
deriving DecidableEq

/-- The body of the loop of `MAXLOC_FUNC`. -/
def maxloc (t : IntType) (invec inoutvec : ValueLoc t) : ValueLoc t :=
  if compare t (· == ·) inoutvec.value invec.value then
    { inoutvec with loc := binary int macroMin inoutvec.loc invec.loc }
  else if compare t (· < ·) inoutvec.value invec.value then
    { value := invec.value, loc := invec.loc }
  else
    inoutvec

/-- The body of the loop of `MINLOC_FUNC`. -/
def minloc (t : IntType) (invec inoutvec : ValueLoc t) : ValueLoc t :=
  if compare t (· == ·) inoutvec.value invec.value then
    { inoutvec with loc := binary int macroMin inoutvec.loc invec.loc }
  else if compare t (· > ·) inoutvec.value invec.value then
    { value := invec.value, loc := invec.loc }
  else
    inoutvec

/-- **A function that may be reordered**: it is commutative and associative on vectors of
one length. -/
structure Reorderable {α : Type} (f : List α → List α → Nat → List α) : Prop where
  length : ∀ {n : Nat} {a b : List α}, a.length = n → b.length = n → (f a b n).length = n
  comm : ∀ {n : Nat} {a b : List α}, a.length = n → b.length = n → f a b n = f b a n
  assoc : ∀ {n : Nat} {a b c : List α}, a.length = n → b.length = n → c.length = n →
    f (f a b n) c n = f a (f b c n) n

variable {α : Type} {f : α → α → α} {t : IntType}

/-- The loop, when some places are done. -/
theorem reduceFrom_append (f : α → α → α) {before done xs ys : List α}
    (hbefore : before.length = done.length) (hlength : xs.length = ys.length) :
    reduceFrom f (before ++ xs) xs.length done.length (done ++ ys) =
      done ++ List.zipWith f xs ys := by
  induction xs generalizing before done ys with
  | nil =>
      rw [List.eq_nil_of_length_eq_zero hlength.symm]
      rfl
  | cons x xs ih =>
      cases ys with
      | nil => cases hlength
      | cons y ys =>
          have hx : (before ++ x :: xs)[done.length]? = some x := by
            rw [← hbefore, List.getElem?_append_right (Nat.le_refl _), Nat.sub_self]
            rfl
          have hy : (done ++ y :: ys)[done.length]? = some y := by
            rw [List.getElem?_append_right (Nat.le_refl _), Nat.sub_self]
            rfl
          have hset : (done ++ y :: ys).set done.length (f x y) = (done ++ [f x y]) ++ ys := by
            rw [List.set_append_right _ _ (Nat.le_refl _), Nat.sub_self, List.set_cons_zero,
              List.append_assoc]
            rfl
          have hrest := @ih (before ++ [x]) (done ++ [f x y]) ys (by simp [hbefore])
            (Nat.succ.inj hlength)
          rw [List.length_append, List.length_singleton, List.append_assoc] at hrest
          rw [List.length_cons, reduceFrom, hx, hy]
          simp only [hset]
          exact hrest.trans (List.append_assoc done [f x y] _)

/-- **The loop** combines the elements at every place. -/
theorem reduceFunc_eq (f : α → α → α) {invec inoutvec : List α} {len : Nat}
    (hin : invec.length = len) (hinout : inoutvec.length = len) :
    reduceFunc f invec inoutvec len = List.zipWith f invec inoutvec := by
  have hloop := @reduceFrom_append α f [] [] _ _ rfl (hin.trans hinout.symm)
  rw [hin] at hloop
  exact hloop

/-- The places are independent of each other. -/
theorem zipWith_assoc (hassoc : ∀ x y z, f (f x y) z = f x (f y z)) (a b c : List α) :
    List.zipWith f (List.zipWith f a b) c = List.zipWith f a (List.zipWith f b c) := by
  induction a generalizing b c with
  | nil => rfl
  | cons x a ih =>
      cases b with
      | nil => rfl
      | cons y b =>
          cases c with
          | nil => rfl
          | cons z c =>
              rw [List.zipWith_cons_cons, List.zipWith_cons_cons, List.zipWith_cons_cons,
                List.zipWith_cons_cons, hassoc, ih]

/-- A loop may be reordered if its body may. -/
theorem reorderable_of (hcomm : ∀ x y, f x y = f y x)
    (hassoc : ∀ x y z, f (f x y) z = f x (f y z)) : Reorderable (reduceFunc f) := by
  have hlength : ∀ {n : Nat} {a b : List α}, a.length = n → b.length = n →
      (reduceFunc f a b n).length = n := by
    intro n a b ha hb
    rw [reduceFunc_eq f ha hb, List.length_zipWith, ha, hb, Nat.min_self]
  refine ⟨hlength, ?_, ?_⟩
  · intro n a b ha hb
    rw [reduceFunc_eq f ha hb, reduceFunc_eq f hb ha]
    exact List.zipWith_comm_of_comm hcomm
  · intro n a b c ha hb hc
    rw [reduceFunc_eq f (hlength ha hb) hc, reduceFunc_eq f ha (hlength hb hc),
      reduceFunc_eq f ha hb, reduceFunc_eq f hb hc, zipWith_assoc hassoc]

/-- A function that keeps the greater of two keys, or the smaller. -/
theorem reorderable_of_key {κ : Type} {key : α → κ} {g : κ → κ → κ}
    (hkey : Function.Injective key) (hg : ∀ x y, key (f x y) = g (key x) (key y))
    (hcomm : ∀ k l, g k l = g l k) (hassoc : ∀ k l m, g (g k l) m = g k (g l m)) :
    Reorderable (reduceFunc f) := by
  refine reorderable_of (fun x y => hkey ?_) (fun x y z => hkey ?_)
  · rw [hg, hg, hcomm]
  · rw [hg, hg, hg, hg, hassoc]

theorem apply_max (x y : t.Value) :
    ReduceOp.max.apply t x y = if t.toInt x > t.toInt y then x else y := by
  have h := binary_select (fun v w => decide (v > w)) x y
  simp only [decide_eq_true_eq] at h
  exact h

theorem apply_min (x y : t.Value) :
    ReduceOp.min.apply t x y = if t.toInt x < t.toInt y then x else y := by
  have h := binary_select (fun v w => decide (v < w)) x y
  simp only [decide_eq_true_eq] at h
  exact h

theorem toInt_apply_max (x y : t.Value) :
    t.toInt (ReduceOp.max.apply t x y) = max (t.toInt x) (t.toInt y) := by
  rw [apply_max]
  split
  · exact (max_eq_left (by omega)).symm
  · exact (max_eq_right (by omega)).symm

theorem toInt_apply_min (x y : t.Value) :
    t.toInt (ReduceOp.min.apply t x y) = min (t.toInt x) (t.toInt y) := by
  rw [apply_min]
  split
  · exact (min_eq_left (by omega)).symm
  · exact (min_eq_right (by omega)).symm

/-- A sum wraps at the width of the type. -/
theorem apply_sum (t : IntType) : ReduceOp.sum.apply t = (· + ·) := funext₂ binary_add

/-- A product wraps at the width of the type. -/
theorem apply_prod (t : IntType) : ReduceOp.prod.apply t = (· * ·) := funext₂ binary_mul

/-- A logical operation looks at which of the operands are 0. -/
theorem apply_truth {op : ReduceOp} {r : Bool → Bool → Bool}
    (hop : ∀ p a b, op.macro p a b = truth p (r (a ≠ 0) (b ≠ 0))) (x y : t.Value) :
    op.apply t x y = truth t (r (x ≠ 0) (y ≠ 0)) := by
  have hmacro : op.macro = fun p a b => truth p (r (a ≠ 0) (b ≠ 0)) := by
    funext p a b
    exact hop p a b
  rw [ReduceOp.apply, hmacro]
  exact binary_truth r x y

/-- What a logical operation yields is right for the next. -/
theorem reorderable_truth {op : ReduceOp} {r : Bool → Bool → Bool}
    (hop : ∀ p a b, op.macro p a b = truth p (r (a ≠ 0) (b ≠ 0)))
    (hcomm : ∀ a b, r a b = r b a) (hassoc : ∀ a b c, r (r a b) c = r a (r b c)) (t : IntType) :
    Reorderable (reduceFunc (op.apply t)) := by
  have happly := fun x y : t.Value => apply_truth hop x y
  refine reorderable_of (fun x y => ?_) (fun x y z => ?_)
  · rw [happly, happly, hcomm]
  · have htruth : ∀ b : Bool, decide (truth t b ≠ 0) = b := by
      intro b
      simp only [truth_ne_zero, Bool.decide_eq_true]
    rw [happly, happly, happly, happly, htruth, htruth, hassoc]

/-- **The operations of `REDUCE_FUNC`** on integers of any type. -/
theorem reorderable_apply (op : ReduceOp) (t : IntType) : Reorderable (reduceFunc (op.apply t)) := by
  cases op with
  | max => exact reorderable_of_key (toInt_injective t) toInt_apply_max max_comm max_assoc
  | min => exact reorderable_of_key (toInt_injective t) toInt_apply_min min_comm min_assoc
  | sum =>
      rw [apply_sum]
      exact reorderable_of BitVec.add_comm BitVec.add_assoc
  | prod =>
      rw [apply_prod]
      exact reorderable_of BitVec.mul_comm BitVec.mul_assoc
  | land => exact reorderable_truth (r := (· && ·)) (fun _ _ _ => rfl) Bool.and_comm Bool.and_assoc t
  | lor => exact reorderable_truth (r := (· || ·)) (fun _ _ _ => rfl) Bool.or_comm Bool.or_assoc t
  | lxor =>
      exact reorderable_truth (r := fun a b => (a && !b) || (!a && b)) (fun _ _ _ => rfl)
        (by decide) (by decide) t
  | band =>
      have happly : ReduceOp.band.apply t = (· &&& ·) := funext₂ binary_and
      rw [happly]
      exact reorderable_of BitVec.and_comm BitVec.and_assoc
  | bor =>
      have happly : ReduceOp.bor.apply t = (· ||| ·) := funext₂ binary_or
      rw [happly]
      exact reorderable_of BitVec.or_comm BitVec.or_assoc
  | bxor =>
      have happly : ReduceOp.bxor.apply t = (· ^^^ ·) := funext₂ binary_xor
      rw [happly]
      exact reorderable_of BitVec.xor_comm BitVec.xor_assoc

/-- A value and its location, where of equal values the one with the smaller location is the
greater. -/
def ValueLoc.maxKey (x : ValueLoc t) : Int ×ₗ Intᵒᵈ :=
  toLex (t.toInt x.value, OrderDual.toDual (int.toInt x.loc))

/-- A value and its location, where of equal values the one with the smaller location is the
smaller. -/
def ValueLoc.minKey (x : ValueLoc t) : Int ×ₗ Int := toLex (t.toInt x.value, int.toInt x.loc)

/-- A value with its location is known from the numbers that they stand for. -/
theorem valueLoc_ext {x y : ValueLoc t} (hvalue : t.toInt x.value = t.toInt y.value)
    (hloc : int.toInt x.loc = int.toInt y.loc) : x = y := by
  cases x
  cases y
  rw [ValueLoc.mk.injEq]
  exact ⟨toInt_injective t hvalue, toInt_injective int hloc⟩

theorem maxKey_injective : Function.Injective (ValueLoc.maxKey (t := t)) := by
  intro x y h
  obtain ⟨hvalue, hloc⟩ := Prod.mk.inj (toLex.injective h)
  exact valueLoc_ext hvalue (OrderDual.toDual.injective hloc)

theorem minKey_injective : Function.Injective (ValueLoc.minKey (t := t)) := by
  intro x y h
  obtain ⟨hvalue, hloc⟩ := Prod.mk.inj (toLex.injective h)
  exact valueLoc_ext hvalue hloc

/-- Of equal values the smaller location is kept. -/
theorem toInt_minLoc (a b : int.Value) :
    int.toInt (binary int macroMin a b) = min (int.toInt a) (int.toInt b) :=
  toInt_apply_min a b

/-- `MAXLOC` keeps the greater value, and of equal ones the smaller location. -/
theorem maxKey_maxloc (x y : ValueLoc t) : (maxloc t x y).maxKey = max x.maxKey y.maxKey := by
  rw [maxloc, compare_eq, compare_eq]
  simp only [beq_iff_eq, decide_eq_true_eq]
  split
  next heq =>
    rw [ValueLoc.maxKey, toInt_minLoc]
    rcases le_total (int.toInt x.loc) (int.toInt y.loc) with hle | hle
    · rw [min_eq_right hle, heq]
      exact (max_eq_left (Prod.Lex.toLex_le_toLex.mpr (Or.inr ⟨heq, hle⟩))).symm
    · rw [min_eq_left hle]
      exact (max_eq_right (Prod.Lex.toLex_le_toLex.mpr (Or.inr ⟨heq.symm, hle⟩))).symm
  next hne =>
    split
    next hlt =>
      exact (max_eq_left (Prod.Lex.toLex_le_toLex.mpr (Or.inl hlt))).symm
    next hge =>
      have hlt : t.toInt x.value < t.toInt y.value := by omega
      exact (max_eq_right (Prod.Lex.toLex_le_toLex.mpr (Or.inl hlt))).symm

/-- `MINLOC` keeps the smaller value, and of equal ones the smaller location. -/
theorem minKey_minloc (x y : ValueLoc t) : (minloc t x y).minKey = min x.minKey y.minKey := by
  rw [minloc, compare_eq, compare_eq]
  simp only [beq_iff_eq, decide_eq_true_eq]
  split
  next heq =>
    rw [ValueLoc.minKey, toInt_minLoc]
    rcases le_total (int.toInt x.loc) (int.toInt y.loc) with hle | hle
    · rw [min_eq_right hle, heq]
      exact (min_eq_left (Prod.Lex.toLex_le_toLex.mpr (Or.inr ⟨heq.symm, hle⟩))).symm
    · rw [min_eq_left hle]
      exact (min_eq_right (Prod.Lex.toLex_le_toLex.mpr (Or.inr ⟨heq, hle⟩))).symm
  next hne =>
    split
    next hgt =>
      exact (min_eq_left (Prod.Lex.toLex_le_toLex.mpr (Or.inl hgt))).symm
    next hle =>
      have hlt : t.toInt y.value < t.toInt x.value := by omega
      exact (min_eq_right (Prod.Lex.toLex_le_toLex.mpr (Or.inl hlt))).symm

/-- **Predefined reductions may be reordered.**  For integers of every type, signed or not
and of any width, the functions of all operations are commutative and associative on vectors
of any length; sums and products wrap, and of equal values the smaller location is kept. -/
theorem reorderable_integers (t : IntType) :
    (∀ op : ReduceOp, Reorderable (reduceFunc (op.apply t))) ∧
      (ReduceOp.sum.apply t = (· + ·) ∧ ReduceOp.prod.apply t = (· * ·)) ∧
      (Reorderable (reduceFunc (maxloc t)) ∧ Reorderable (reduceFunc (minloc t))) ∧
      ∀ x y : ValueLoc t, (maxloc t x y).maxKey = max x.maxKey y.maxKey ∧
        (minloc t x y).minKey = min x.minKey y.minKey :=
  ⟨fun op => reorderable_apply op t, ⟨apply_sum t, apply_prod t⟩,
    ⟨reorderable_of_key maxKey_injective maxKey_maxloc max_comm max_assoc,
      reorderable_of_key minKey_injective minKey_minloc min_comm min_assoc⟩,
    fun x y => ⟨maxKey_maxloc x y, minKey_minloc x y⟩⟩

/-- Vectors of one length are combined by a function that may be reordered. -/
theorem Reorderable.combines {g : List α → List α → Nat → List α} (h : Reorderable g) (n : Nat) :
    Reductions.Combines (fun a b => g a b n) {v | v.length = n} :=
  ⟨fun ha hb => h.length ha hb, fun ha hb hc => h.assoc ha hb hc⟩

/-- **The order of the clusters** does not matter for what their vectors are reduced to. -/
theorem reduction_eq_of_perm {g : List α → List α → Nat → List α} (h : Reorderable g) {n : Nat}
    {clusters clusters' : List (List α)} (hperm : clusters.Perm clusters')
    (hlength : ∀ v ∈ clusters, v.length = n) :
    Reductions.reduction (fun a b => g a b n) clusters =
      Reductions.reduction (fun a b => g a b n) clusters' :=
  Reductions.reduction_perm (h.combines n) (fun ha hb => h.comm ha hb) hperm hlength

/-- Of equal values the smaller location is kept, and a product wraps. -/
example :
    reduceFunc (maxloc int) [⟨5, 3⟩, ⟨-1, 0⟩] [⟨5, 1⟩, ⟨7, 2⟩] 2 = [⟨5, 1⟩, ⟨7, 2⟩] ∧
      ReduceOp.prod.apply ⟨2, false, by decide⟩ 0xFFFF 0xFFFF = 1 := by
  decide

end ReduceOps

end EsalsaMpi
