import EsalsaMpi.Settings
import Mathlib.Data.List.Perm.Subperm

/-!
# Groups from ranges of ranks

`group_range_incl` makes a group of the members whose ranks are in the ranges
(first, last, stride).  It goes over each range with an `int` that is advanced by the
stride until it is behind the last rank, and stores what it reads in an array that is as
large as the group.

The advanced rank may wrap: a stride near `INT_MAX` takes it behind the members to a
negative number, which looks like a rank before the last one.  In all other cases the
function does what `group_incl` does for the ranks that the ranges stand for
(`rangeInclLikeIncl_iff`).
-/

namespace EsalsaMpi

namespace Groups

/-- `EMPI_ERR_RANK`. -/
def empiErrRank : Nat := 6

/-- `EMPI_ERR_ARG`. -/
def empiErrArg : Nat := 13

/-- `EMPI_ERR_INTERN`. -/
def empiErrIntern : Nat := 17

/-- `MAX_GROUPS`. -/
def maxGroups : Nat := 1024

/-- `EMPI_GROUP_EMPTY`. -/
def empiGroupEmpty : Nat := 1

/-- `s_group`. -/
structure Group where
  handle : Nat
  rank : Int
  members : List Pid
deriving DecidableEq, Repr

/-- A group that is not empty.  The size of a group is an `int`. -/
structure NonemptyGroup extends Group where
  members_ne : members ≠ []
  size_lt : members.length < 2 ^ 31

/-- How a call ends: with a result, with an error code, or with a read outside of the
members, of which nothing can be told. -/
inductive Outcome (α : Type) where
  | ok (result : α)
  | error (code : Nat)
  | outOfBounds
deriving DecidableEq, Repr

/-- What is done after a call that succeeds. -/
def Outcome.andThen {α β : Type} (x : Outcome α) (f : α → Outcome β) : Outcome β :=
  match x with
  | .ok a => f a
  | .error code => .error code
  | .outOfBounds => .outOfBounds

/-- A triplet of `ranges`. -/
structure Range where
  first : Int32
  last : Int32
  stride : Int32
deriving DecidableEq, Repr

/-- `create_group`: the handle of a group with room for `members` members.  The group of
no members is shared. -/
def createGroup (nextGroup members : Nat) : Outcome Nat :=
  if members = 0 then .ok empiGroupEmpty
  else if maxGroups ≤ nextGroup then .error empiErrIntern
  else .ok nextGroup

/-- The loops that set `res->rank`: the last place of `my_pid`, or -1. -/
def ownRank (myPid : Pid) (members : List Pid) : Int :=
  members.zipIdx.foldl (fun rank m => if m.1 = myPid then (m.2 : Int) else rank) (-1)

/-- `in->members[i]`. -/
def memberAt (members : List Pid) (i : Int) : Option Pid :=
  if i < 0 then none else members[i.toNat]?

/-- The loop of `group_incl`. -/
def inclMembers (members : List Pid) : List Int → Outcome (List Pid)
  | [] => .ok []
  | next :: ranks =>
    if next < 0 ∨ (members.length : Int) ≤ next then
      .error empiErrRank
    else
      match memberAt members next with
      | none => .outOfBounds
      | some pid => (inclMembers members ranks).andThen fun l => .ok (pid :: l)

/-- `group_incl`. -/
def groupIncl (myPid : Pid) (nextGroup : Nat) (g : Group) (ranks : List Int) : Outcome Group :=
  (createGroup nextGroup ranks.length).andThen fun handle =>
    (inclMembers g.members ranks).andThen fun l => .ok ⟨handle, ownRank myPid l, l⟩

/-- A loop of `get_range` with `room` places left in `dst`, from rank `i` on. -/
def rangeLoop (members : List Pid) (stride : Int32) (more : Int32 → Bool) :
    Nat → Int32 → Outcome (List Pid)
  | room, i =>
    if more i then
      match room with
      | 0 => .error empiErrArg
      | room + 1 =>
        match memberAt members i.toInt with
        | none => .outOfBounds
        | some pid =>
          (rangeLoop members stride more room (i + stride)).andThen fun l => .ok (pid :: l)
    else
      .ok []

/-- The condition of the forward loop. -/
def Range.forward (r : Range) (size : Nat) (i : Int32) : Bool :=
  decide (i.toInt < size) && decide (i.toInt ≤ r.last.toInt)

/-- The condition of the backward loop. -/
def Range.backward (r : Range) (i : Int32) : Bool :=
  decide (0 ≤ i.toInt) && decide (r.last.toInt ≤ i.toInt)

/-- `get_range`, which appends to the entries of `dst`. -/
def getRange (members dst : List Pid) (r : Range) : Outcome (List Pid) :=
  let size := members.length
  let room := size - dst.length
  if r.stride = 0 ∨ r.first.toInt < 0 ∨ size ≤ r.first.toInt ∨ r.last.toInt < 0 ∨
      size ≤ r.last.toInt then
    .error empiErrRank
  else if r.first.toInt ≤ r.last.toInt ∧ 0 < r.stride.toInt then
    (rangeLoop members r.stride (r.forward size) room r.first).andThen fun l => .ok (dst ++ l)
  else if r.last.toInt ≤ r.first.toInt ∧ r.stride.toInt < 0 then
    (rangeLoop members r.stride r.backward room r.first).andThen fun l => .ok (dst ++ l)
  else
    .error empiErrRank

/-- The loop of `group_range_incl` over the ranges. -/
def getRanges (members : List Pid) : List Pid → List Range → Outcome (List Pid)
  | dst, [] => .ok dst
  | dst, r :: ranges => (getRange members dst r).andThen fun dst => getRanges members dst ranges

/-- `group_range_incl`. -/
def groupRangeIncl (myPid : Pid) (nextGroup : Nat) (g : Group) (ranges : List Range) :
    Outcome Group :=
  if g.members.length = 0 then
    .ok ⟨empiGroupEmpty, -1, []⟩
  else
    (getRanges g.members [] ranges).andThen fun tmp =>
      (createGroup nextGroup tmp.length).andThen fun handle =>
        .ok ⟨handle, ownRank myPid tmp, tmp⟩

/-! ### What the ranges stand for -/

/-- A valid range: the ranks are in bounds, and the stride goes from the first towards the
last. -/
structure Range.Valid (r : Range) (size : Nat) : Prop where
  first : 0 ≤ r.first.toInt ∧ r.first.toInt < size
  last : 0 ≤ r.last.toInt ∧ r.last.toInt < size
  stride : (r.first.toInt ≤ r.last.toInt ∧ 0 < r.stride.toInt) ∨
    (r.last.toInt ≤ r.first.toInt ∧ r.stride.toInt < 0)

instance (r : Range) (size : Nat) : Decidable (r.Valid size) :=
  decidable_of_iff
    ((0 ≤ r.first.toInt ∧ r.first.toInt < size) ∧ (0 ≤ r.last.toInt ∧ r.last.toInt < size) ∧
      ((r.first.toInt ≤ r.last.toInt ∧ 0 < r.stride.toInt) ∨
        (r.last.toInt ≤ r.first.toInt ∧ r.stride.toInt < 0)))
    ⟨fun h => ⟨h.1, h.2.1, h.2.2⟩, fun h => ⟨h.first, h.last, h.stride⟩⟩

/-- The number of ranks in a valid range. -/
def Range.count (r : Range) : Nat :=
  (r.last.toInt - r.first.toInt).natAbs / r.stride.toInt.natAbs + 1

/-- Entry `k` of a valid range. -/
def Range.entry (r : Range) (k : Nat) : Int := r.first.toInt + k * r.stride.toInt

/-- The ranks that a valid range stands for. -/
def Range.expand (r : Range) : List Int := (List.range r.count).map r.entry

/-- The ranks that the ranges stand for. -/
def expansion (ranges : List Range) : List Int := ranges.flatMap Range.expand

/-- The ranges are erroneous: one of them is not valid, or there are more entries than
there is room for. -/
def Erroneous (size room : Nat) (ranges : List Range) : Prop :=
  (∃ r ∈ ranges, ¬ r.Valid size) ∨ room < (expansion ranges).length

/-- **`group_range_incl` is `group_incl`** on the ranks that the ranges stand for: it reads
members only; for valid ranges with distinct ranks it has the same result; and it returns an
error if and only if the ranges are erroneous. -/
structure RangeInclLikeIncl (myPid : Pid) (nextGroup : Nat) (g : Group) (ranges : List Range) :
    Prop where
  reads : groupRangeIncl myPid nextGroup g ranges ≠ .outOfBounds
  incl : (∀ r ∈ ranges, r.Valid g.members.length) → (expansion ranges).Nodup →
    ∃ res, groupRangeIncl myPid nextGroup g ranges = .ok res ∧
      groupIncl myPid nextGroup g (expansion ranges) = .ok res
  error : (∃ code, groupRangeIncl myPid nextGroup g ranges = .error code) ↔
    Erroneous g.members.length g.members.length ranges

/-- No range that wraps has an effect.  Up to the first one there is an error, or it takes
what room there is and another range follows, which is one too many. -/
def WrapsUnseen (size : Nat) : Nat → List Range → Prop
  | _, [] => True
  | room, r :: rest =>
    ¬ r.Valid size ∨ room < r.count ∨
      if 2 ^ 31 ≤ r.entry r.count then room = r.count ∧ rest ≠ []
      else WrapsUnseen size (room - r.count) rest

/-- There is an entry in the table of groups for the result, if it takes one. -/
def HasEntry (nextGroup size : Nat) (ranges : List Range) : Prop :=
  nextGroup < maxGroups ∨ ranges = [] ∨ Erroneous size size ranges

/-! ### One range -/

section Range

variable {r : Range} {members dst : List Pid} {size k room : Nat}

/-- The members with the given ranks. -/
def membersAt (members : List Pid) (ranks : List Int) : List Pid :=
  ranks.filterMap (memberAt members)

theorem membersAt_cons {e : Int} {pid : Pid} (h : memberAt members e = some pid)
    (ranks : List Int) : membersAt members (e :: ranks) = pid :: membersAt members ranks :=
  List.filterMap_cons_some h

theorem memberAt_of_lt {e : Int} (hpos : 0 ≤ e) (hlt : e < members.length) :
    ∃ pid, memberAt members e = some pid := by
  have hrank : e.toNat < members.length := by omega
  refine ⟨members[e.toNat], ?_⟩
  rw [memberAt, if_neg (by omega)]
  exact List.getElem?_eq_getElem hrank

theorem memberAt_of_neg {e : Int} (h : e < 0) : memberAt members e = none := if_pos h

/-- The entries of a valid range go from the first rank towards the last, and the one
behind them is behind the last. -/
theorem Range.Valid.entries (h : r.Valid size) :
    (r.first.toInt ≤ r.last.toInt ∧ 0 < r.stride.toInt ∧
      (∀ k < r.count, r.first.toInt ≤ r.entry k ∧ r.entry k ≤ r.last.toInt) ∧
        r.last.toInt < r.entry r.count ∧ r.entry r.count ≤ r.last.toInt + r.stride.toInt) ∨
    (r.last.toInt ≤ r.first.toInt ∧ r.stride.toInt < 0 ∧
      (∀ k < r.count, r.last.toInt ≤ r.entry k ∧ r.entry k ≤ r.first.toInt) ∧
        r.entry r.count < r.last.toInt ∧ r.last.toInt + r.stride.toInt ≤ r.entry r.count) := by
  have hsteps : ∀ (D d : Nat), 0 < d →
      (∀ k < D / d + 1, k * d ≤ D) ∧ D < (D / d + 1) * d ∧ (D / d + 1) * d ≤ D + d := by
    intro D d hd
    have hle := Nat.div_mul_le_self D d
    refine ⟨fun k hk => ?_, ?_, ?_⟩
    · exact (Nat.mul_le_mul_right d (Nat.le_of_lt_succ hk)).trans hle
    · rw [Nat.mul_comm]
      exact Nat.lt_mul_div_succ D hd
    · rw [Nat.add_mul, Nat.one_mul]
      omega
  obtain ⟨d, hd⟩ : ∃ d, d = r.stride.toInt.natAbs := ⟨_, rfl⟩
  obtain ⟨D, hD⟩ : ∃ D, D = (r.last.toInt - r.first.toInt).natAbs := ⟨_, rfl⟩
  have hcount : r.count = D / d + 1 := by rw [count, hD, hd]
  rcases h.stride with ⟨hle, hpos⟩ | ⟨hle, hneg⟩
  · left
    obtain ⟨hin, hbehind, hnear⟩ := hsteps D d (by omega)
    have hentry : ∀ k, r.entry k = r.first.toInt + ((k * d : Nat) : Int) := by
      intro k
      rw [entry, Int.natCast_mul, show (d : Int) = r.stride.toInt by omega]
    refine ⟨hle, hpos, fun k hk => ?_, ?_, ?_⟩
    · have := hin k (hcount ▸ hk)
      rw [hentry]
      omega
    · rw [hentry, hcount]
      omega
    · rw [hentry, hcount]
      omega
  · right
    obtain ⟨hin, hbehind, hnear⟩ := hsteps D d (by omega)
    have hentry : ∀ k, r.entry k = r.first.toInt - ((k * d : Nat) : Int) := by
      intro k
      rw [entry, Int.natCast_mul, show r.stride.toInt = -(d : Int) by omega, Int.mul_neg]
      rfl
    refine ⟨hle, hneg, fun k hk => ?_, ?_, ?_⟩
    · have := hin k (hcount ▸ hk)
      rw [hentry]
      omega
    · rw [hentry, hcount]
      omega
    · rw [hentry, hcount]
      omega

/-- The entries of a valid range are ranks of members. -/
theorem Range.Valid.entry_lt (h : r.Valid size) (hk : k < r.count) :
    0 ≤ r.entry k ∧ r.entry k < size := by
  have hfirst := h.first
  have hlast := h.last
  rcases h.entries with ⟨_, _, hin, _⟩ | ⟨_, _, hin, _⟩
  · have := hin k hk
    omega
  · have := hin k hk
    omega

/-- The rank after `k` rounds of the loop. -/
theorem entry_succ (r : Range) (k : Nat) :
    Int32.ofInt (r.entry k) + r.stride = Int32.ofInt (r.entry (k + 1)) := by
  have hentry : r.entry (k + 1) = r.entry k + r.stride.toInt := by
    rw [Range.entry, Range.entry, Int.natCast_add, Int.add_mul, Int.natCast_one, Int.one_mul,
      Int.add_assoc]
  rw [hentry, Int32.ofInt_add, Int32.ofInt_toInt]

/-- A rank that is an `int`. -/
theorem toInt_ofInt {e : Int} (hle : -2 ^ 31 ≤ e) (hlt : e < 2 ^ 31) :
    (Int32.ofInt e).toInt = e := Int32.toInt_ofInt_of_le hle hlt

/-- **A loop** over the entries of a range: it stores them, if there is room, and then goes
on with the rank behind them. -/
theorem rangeLoop_entries {more : Int32 → Bool} (hsize : members.length < 2 ^ 31)
    (hin : ∀ k < r.count, 0 ≤ r.entry k ∧ r.entry k < members.length)
    (hmore : ∀ k < r.count, more (Int32.ofInt (r.entry k)) = true) (room : Nat) :
    rangeLoop members r.stride more room r.first =
      if r.count ≤ room then
        (rangeLoop members r.stride more (room - r.count) (Int32.ofInt (r.entry r.count))).andThen
          fun l => .ok (membersAt members r.expand ++ l)
      else
        .error empiErrArg := by
  have hrounds : ∀ n k room, k + n = r.count →
      rangeLoop members r.stride more room (Int32.ofInt (r.entry k)) =
        if n ≤ room then
          (rangeLoop members r.stride more (room - n) (Int32.ofInt (r.entry r.count))).andThen
            fun l => .ok (membersAt members ((List.range' k n).map r.entry) ++ l)
        else
          .error empiErrArg := by
    intro n
    induction n with
    | zero =>
        intro k room hk
        rw [if_pos (Nat.zero_le room), Nat.sub_zero, ← hk, Nat.add_zero]
        cases rangeLoop members r.stride more room (Int32.ofInt (r.entry k)) <;> rfl
    | succ n ih =>
        intro k room hk
        have hnow := hin k (by omega)
        obtain ⟨pid, hpid⟩ := memberAt_of_lt hnow.1 hnow.2
        have hrank : (Int32.ofInt (r.entry k)).toInt = r.entry k :=
          toInt_ofInt (by omega) (by omega)
        cases room with
        | zero =>
            rw [rangeLoop, if_pos (hmore k (by omega)), if_neg (by omega)]
        | succ room =>
            rw [rangeLoop, if_pos (hmore k (by omega))]
            simp only [hrank, hpid, entry_succ]
            rw [ih (k + 1) room (by omega), Nat.add_sub_add_right]
            by_cases hle : n ≤ room
            · rw [if_pos hle, if_pos (Nat.succ_le_succ hle), List.range'_succ, List.map_cons]
              rw [membersAt_cons hpid]
              cases rangeLoop members r.stride more (room - n) (Int32.ofInt (r.entry r.count)) <;>
                rfl
            · rw [if_neg hle, if_neg (by omega)]
              rfl
  have hfirst : Int32.ofInt (r.entry 0) = r.first := by
    rw [Range.entry, Int.natCast_zero, Int.zero_mul, Int.add_zero, Int32.ofInt_toInt]
  have hall := hrounds r.count 0 room (Nat.zero_add _)
  rw [hfirst, ← List.range_eq_range'] at hall
  exact hall

/-- Behind the entries the loop ends, unless the rank has wrapped. -/
theorem rangeLoop_behind {more : Int32 → Bool} {e : Int}
    (hends : e < 2 ^ 31 → more (Int32.ofInt e) = false)
    (hwraps : 2 ^ 31 ≤ e → more (Int32.ofInt e) = true ∧ (Int32.ofInt e).toInt < 0) (room : Nat) :
    rangeLoop members r.stride more room (Int32.ofInt e) =
      if 2 ^ 31 ≤ e then if room = 0 then .error empiErrArg else .outOfBounds else .ok [] := by
  by_cases hwrap : 2 ^ 31 ≤ e
  · obtain ⟨hmore, hneg⟩ := hwraps hwrap
    rw [if_pos hwrap]
    cases room with
    | zero => rw [rangeLoop, if_pos hmore, if_pos rfl]
    | succ room =>
        rw [rangeLoop, if_pos hmore, if_neg (Nat.succ_ne_zero room)]
        simp only [memberAt_of_neg hneg]
  · have hend := hends (by omega)
    rw [if_neg hwrap]
    cases room with
    | zero => simp [rangeLoop, hend]
    | succ room => simp [rangeLoop, hend]

/-- The loop of a valid range. -/
theorem rangeLoop_valid {more : Int32 → Bool} (h : r.Valid members.length)
    (hsize : members.length < 2 ^ 31)
    (hmore : ∀ k < r.count, more (Int32.ofInt (r.entry k)) = true)
    (hends : r.entry r.count < 2 ^ 31 → more (Int32.ofInt (r.entry r.count)) = false)
    (hwraps : 2 ^ 31 ≤ r.entry r.count → more (Int32.ofInt (r.entry r.count)) = true ∧
      (Int32.ofInt (r.entry r.count)).toInt < 0) (room : Nat) :
    (rangeLoop members r.stride more room r.first).andThen (fun l => .ok (dst ++ l)) =
      if r.count ≤ room then
        if 2 ^ 31 ≤ r.entry r.count then
          if room = r.count then .error empiErrArg else .outOfBounds
        else
          .ok (dst ++ membersAt members r.expand)
      else
        .error empiErrArg := by
  rw [rangeLoop_entries hsize (fun k hk => h.entry_lt hk) hmore]
  by_cases hroom : r.count ≤ room
  · rw [if_pos hroom, if_pos hroom, rangeLoop_behind hends hwraps]
    by_cases hwrap : 2 ^ 31 ≤ r.entry r.count
    · rw [if_pos hwrap, if_pos hwrap]
      by_cases hfull : room = r.count
      · rw [if_pos hfull, if_pos (by omega)]
        rfl
      · rw [if_neg hfull, if_neg (by omega)]
        rfl
    · rw [if_neg hwrap, if_neg hwrap]
      simp only [Outcome.andThen, List.append_nil]
  · rw [if_neg hroom, if_neg hroom]
    rfl

/-- **One range**: its entries are stored, if it is valid and there is room for them, and
if the rank does not wrap behind them. -/
theorem getRange_valid (h : r.Valid members.length) (hsize : members.length < 2 ^ 31) :
    getRange members dst r =
      if r.count ≤ members.length - dst.length then
        if 2 ^ 31 ≤ r.entry r.count then
          if members.length - dst.length = r.count then .error empiErrArg else .outOfBounds
        else
          .ok (dst ++ membersAt members r.expand)
      else
        .error empiErrArg := by
  have hfirst := h.first
  have hlast := h.last
  have hbounds : ¬ (r.stride = 0 ∨ r.first.toInt < 0 ∨ (members.length : Int) ≤ r.first.toInt ∨
      r.last.toInt < 0 ∨ (members.length : Int) ≤ r.last.toInt) := by
    rintro (hzero | hout)
    · have hstride := h.stride
      rw [hzero, show (0 : Int32).toInt = 0 from rfl] at hstride
      omega
    · omega
  have hrank : ∀ k < r.count, (Int32.ofInt (r.entry k)).toInt = r.entry k := by
    intro k hk
    have := h.entry_lt hk
    exact toInt_ofInt (by omega) (by omega)
  rw [getRange, if_neg hbounds]
  rcases h.entries with ⟨hle, hpos, hin, hbehind, hnear⟩ | ⟨hle, hneg, hin, hbehind, hnear⟩
  · rw [if_pos ⟨hle, hpos⟩]
    have hstride := r.stride.toInt_lt
    refine rangeLoop_valid h hsize ?_ ?_ ?_ _
    · intro k hk
      have := hin k hk
      simp only [Range.forward, hrank k hk, Bool.and_eq_true, decide_eq_true_eq]
      omega
    · intro hint
      have hend := toInt_ofInt (e := r.entry r.count) (by omega) hint
      simp only [Range.forward, hend, Bool.and_eq_false_iff, decide_eq_false_iff_not]
      omega
    · intro hwrap
      -- the sum of two numbers below 2 ^ 31 becomes negative
      have hend : (Int32.ofInt (r.entry r.count)).toInt = r.entry r.count - 2 ^ 32 := by
        rw [Int32.toInt_ofInt, show Int32.size = 2 ^ 32 from rfl, Int.bmod_def]
        split <;> omega
      simp only [Range.forward, hend, Bool.and_eq_true, decide_eq_true_eq]
      omega
  · rw [if_neg (by omega), if_pos ⟨hle, hneg⟩]
    have hstride := r.stride.le_toInt
    refine rangeLoop_valid h hsize ?_ ?_ ?_ _
    · intro k hk
      have := hin k hk
      simp only [Range.backward, hrank k hk, Bool.and_eq_true, decide_eq_true_eq]
      omega
    · intro hint
      have hend := toInt_ofInt (e := r.entry r.count) (by omega) hint
      simp only [Range.backward, hend, Bool.and_eq_false_iff, decide_eq_false_iff_not]
      omega
    · omega

/-- A range that is not valid is an error. -/
theorem getRange_invalid (h : ¬ r.Valid members.length) :
    getRange members dst r = .error empiErrRank := by
  rw [getRange]
  by_cases hbounds : r.stride = 0 ∨ r.first.toInt < 0 ∨ (members.length : Int) ≤ r.first.toInt ∨
      r.last.toInt < 0 ∨ (members.length : Int) ≤ r.last.toInt
  · exact if_pos hbounds
  · rw [if_neg hbounds, if_neg fun hforward => h ⟨by omega, by omega, Or.inl hforward⟩,
      if_neg fun hbackward => h ⟨by omega, by omega, Or.inr hbackward⟩]

end Range

/-! ### All ranges -/

section Ranges

variable {members dst : List Pid} {size room : Nat} {r : Range} {ranges : List Range}

theorem count_pos (r : Range) : 0 < r.count := Nat.succ_pos _

theorem length_expand (r : Range) : r.expand.length = r.count := by
  rw [Range.expand, List.length_map, List.length_range]

theorem expansion_cons (r : Range) (ranges : List Range) :
    expansion (r :: ranges) = r.expand ++ expansion ranges := rfl

/-- The entries of valid ranges are ranks of members. -/
theorem mem_expansion (h : ∀ r ∈ ranges, r.Valid size) {e : Int} (he : e ∈ expansion ranges) :
    0 ≤ e ∧ e < size := by
  obtain ⟨r, hr, he⟩ := List.mem_flatMap.mp he
  obtain ⟨k, hk, rfl⟩ := List.mem_map.mp he
  exact (h r hr).entry_lt (List.mem_range.mp hk)

/-- As many members are read as there are entries. -/
theorem length_membersAt {ranks : List Int} (h : ∀ e ∈ ranks, 0 ≤ e ∧ e < members.length) :
    (membersAt members ranks).length = ranks.length := by
  induction ranks with
  | nil => rfl
  | cons e ranks ih =>
      obtain ⟨pid, hpid⟩ := memberAt_of_lt (h e List.mem_cons_self).1 (h e List.mem_cons_self).2
      rw [membersAt_cons hpid, List.length_cons, List.length_cons,
        ih fun e he => h e (List.mem_cons_of_mem _ he)]

/-- The ranges behind a valid one that fits. -/
theorem erroneous_cons (hvalid : r.Valid size) (hroom : r.count ≤ room) :
    Erroneous size room (r :: ranges) ↔ Erroneous size (room - r.count) ranges := by
  have hlength : (expansion (r :: ranges)).length = r.count + (expansion ranges).length := by
    rw [expansion_cons, List.length_append, length_expand]
  constructor
  · rintro (⟨r', hr', hnot⟩ | hmany)
    · rcases List.mem_cons.mp hr' with rfl | hr'
      · exact absurd hvalid hnot
      · exact Or.inl ⟨r', hr', hnot⟩
    · right
      omega
  · rintro (⟨r', hr', hnot⟩ | hmany)
    · exact Or.inl ⟨r', List.mem_cons_of_mem _ hr', hnot⟩
    · right
      omega

/-- Every range has an entry. -/
theorem erroneous_of_ne_nil (hne : ranges ≠ []) : Erroneous size 0 ranges := by
  right
  cases ranges with
  | nil => exact absurd rfl hne
  | cons r ranges =>
      rw [expansion_cons, List.length_append, length_expand]
      have := count_pos r
      omega

/-- **All ranges.**  If no range that wraps has an effect, the ranges are an error or all
their entries are stored; otherwise there is a read outside of the members, or an error
although the ranges are not erroneous. -/
theorem getRanges_cases (hsize : members.length < 2 ^ 31) (ranges : List Range)
    (dst : List Pid) (room : Nat) (hroom : room = members.length - dst.length) :
    (WrapsUnseen members.length room ranges ∧ Erroneous members.length room ranges ∧
        ∃ code, getRanges members dst ranges = .error code) ∨
      (WrapsUnseen members.length room ranges ∧ ¬ Erroneous members.length room ranges ∧
        getRanges members dst ranges = .ok (dst ++ membersAt members (expansion ranges))) ∨
      (¬ WrapsUnseen members.length room ranges ∧
        (getRanges members dst ranges = .outOfBounds ∨
          (∃ code, getRanges members dst ranges = .error code) ∧
            ¬ Erroneous members.length room ranges)) := by
  induction ranges generalizing dst room with
  | nil =>
      right
      left
      refine ⟨trivial, ?_, ?_⟩
      · rintro (⟨r, hr, _⟩ | hmany)
        · cases hr
        · exact Nat.not_lt_zero _ hmany
      · rw [getRanges, expansion, List.flatMap_nil, membersAt, List.filterMap_nil,
          List.append_nil]
  | cons r ranges ih =>
      by_cases hvalid : r.Valid members.length
      · have hrange := @getRange_valid r members dst hvalid hsize
        rw [← hroom] at hrange
        by_cases hfits : r.count ≤ room
        · rw [if_pos hfits] at hrange
          have herroneous := @erroneous_cons _ _ _ ranges hvalid hfits
          by_cases hwraps : 2 ^ 31 ≤ r.entry r.count
          · rw [if_pos hwraps] at hrange
            have hunseen : WrapsUnseen members.length room (r :: ranges) ↔
                room = r.count ∧ ranges ≠ [] := by
              rw [WrapsUnseen, if_pos hwraps]
              constructor
              · rintro (hnot | hlt | h)
                · exact absurd hvalid hnot
                · omega
                · exact h
              · exact fun h => Or.inr (Or.inr h)
            by_cases hfull : room = r.count
            · rw [if_pos hfull] at hrange
              have hcode : ∃ code, getRanges members dst (r :: ranges) = .error code :=
                ⟨empiErrArg, by rw [getRanges, hrange]; rfl⟩
              by_cases hne : ranges = []
              · right
                right
                refine ⟨fun h => (hunseen.mp h).2 hne, Or.inr ⟨hcode, fun h => ?_⟩⟩
                rw [herroneous, hne] at h
                rcases h with ⟨r', hr', _⟩ | hmany
                · cases hr'
                · exact Nat.not_lt_zero _ hmany
              · left
                refine ⟨hunseen.mpr ⟨hfull, hne⟩, ?_, hcode⟩
                rw [herroneous, hfull, Nat.sub_self]
                exact erroneous_of_ne_nil hne
            · rw [if_neg hfull] at hrange
              right
              right
              exact ⟨fun h => hfull (hunseen.mp h).1,
                Or.inl (by rw [getRanges, hrange]; rfl)⟩
          · rw [if_neg hwraps] at hrange
            have hunseen : WrapsUnseen members.length room (r :: ranges) ↔
                WrapsUnseen members.length (room - r.count) ranges := by
              rw [WrapsUnseen, if_neg hwraps]
              constructor
              · rintro (hnot | hlt | h)
                · exact absurd hvalid hnot
                · omega
                · exact h
              · exact fun h => Or.inr (Or.inr h)
            have hstored : (dst ++ membersAt members r.expand).length = dst.length + r.count := by
              rw [List.length_append, length_membersAt, length_expand]
              intro e he
              obtain ⟨k, hk, rfl⟩ := List.mem_map.mp he
              exact hvalid.entry_lt (List.mem_range.mp hk)
            have hnext : getRanges members dst (r :: ranges) =
                getRanges members (dst ++ membersAt members r.expand) ranges := by
              rw [getRanges, hrange]
              rfl
            have hall : dst ++ membersAt members (expansion (r :: ranges)) =
                dst ++ membersAt members r.expand ++ membersAt members (expansion ranges) := by
              rw [expansion_cons, membersAt, List.filterMap_append, List.append_assoc]
              rfl
            rw [hunseen, herroneous, hnext, hall]
            exact ih _ _ (by omega)
        · rw [if_neg hfits] at hrange
          left
          refine ⟨?_, ?_, empiErrArg, by rw [getRanges, hrange]; rfl⟩
          · rw [WrapsUnseen]
            exact Or.inr (Or.inl (by omega))
          · right
            rw [expansion_cons, List.length_append, length_expand]
            omega
      · left
        refine ⟨?_, Or.inl ⟨r, List.mem_cons_self, hvalid⟩, empiErrRank, ?_⟩
        · rw [WrapsUnseen]
          exact Or.inl hvalid
        · rw [getRanges, getRange_invalid hvalid]
          rfl

/-- `group_incl` reads the members with ranks in bounds. -/
theorem inclMembers_eq {ranks : List Int} (h : ∀ e ∈ ranks, 0 ≤ e ∧ e < members.length) :
    inclMembers members ranks = .ok (membersAt members ranks) := by
  induction ranks with
  | nil => rfl
  | cons e ranks ih =>
      obtain ⟨hpos, hlt⟩ := h e List.mem_cons_self
      obtain ⟨pid, hpid⟩ := memberAt_of_lt hpos hlt
      rw [inclMembers, if_neg (by omega)]
      simp only [hpid]
      rw [ih fun e he => h e (List.mem_cons_of_mem _ he), membersAt_cons hpid]
      rfl

/-- Distinct ranks are no more than there are members. -/
theorem length_le_of_nodup {ranks : List Int} (h : ∀ e ∈ ranks, 0 ≤ e ∧ e < (size : Int))
    (hnodup : ranks.Nodup) : ranks.length ≤ size := by
  have hsubset : ranks ⊆ (List.range size).map Int.ofNat := by
    intro e he
    obtain ⟨hpos, hlt⟩ := h e he
    exact List.mem_map.mpr ⟨e.toNat, List.mem_range.mpr (by omega), Int.toNat_of_nonneg hpos⟩
  have hle := (List.subperm_of_subset hnodup hsubset).length_le
  rwa [List.length_map, List.length_range] at hle

end Ranges

/-- **Groups from ranges.**  `group_range_incl` does what `group_incl` does for the ranks
that the ranges stand for if and only if no range that wraps has an effect and the table of
groups has an entry for the result. -/
theorem rangeInclLikeIncl_iff (myPid : Pid) (nextGroup : Nat) (g : NonemptyGroup)
    (ranges : List Range) :
    RangeInclLikeIncl myPid nextGroup g.toGroup ranges ↔
      WrapsUnseen g.members.length g.members.length ranges ∧
        HasEntry nextGroup g.members.length ranges := by
  have hrun : groupRangeIncl myPid nextGroup g.toGroup ranges =
      (getRanges g.members [] ranges).andThen fun tmp =>
        (createGroup nextGroup tmp.length).andThen fun handle =>
          .ok ⟨handle, ownRank myPid tmp, tmp⟩ :=
    if_neg fun hnil => g.members_ne (List.eq_nil_of_length_eq_zero hnil)
  rcases getRanges_cases g.size_lt ranges [] g.members.length rfl with
    ⟨hunseen, herroneous, code, hcode⟩ | ⟨hunseen, herroneous, hok⟩ | ⟨hunseen, hbad⟩
  · -- an error, as it should be
    rw [hcode] at hrun
    refine iff_of_true ⟨?_, ?_, ?_⟩ ⟨hunseen, Or.inr (Or.inr herroneous)⟩
    · rw [hrun]
      exact nofun
    · intro hvalid hnodup
      rcases herroneous with ⟨r, hr, hnot⟩ | hmany
      · exact absurd (hvalid r hr) hnot
      · have := length_le_of_nodup (fun e he => mem_expansion hvalid he) hnodup
        omega
    · exact iff_of_true ⟨code, hrun⟩ herroneous
  · -- all entries are stored
    have hvalid : ∀ r ∈ ranges, r.Valid g.members.length := by
      intro r hr
      by_contra hnot
      exact herroneous (Or.inl ⟨r, hr, hnot⟩)
    have hlength := @length_membersAt g.members _ fun e he => mem_expansion hvalid he
    rw [hok, List.nil_append] at hrun
    by_cases hentry : HasEntry nextGroup g.members.length ranges
    · obtain ⟨handle, hhandle⟩ : ∃ handle,
          createGroup nextGroup (expansion ranges).length = .ok handle := by
        rcases hentry with hlt | rfl | hno
        · rw [createGroup, if_neg (Nat.not_le.mpr hlt)]
          split
          · exact ⟨_, rfl⟩
          · exact ⟨_, rfl⟩
        · exact ⟨empiGroupEmpty, rfl⟩
        · exact absurd hno herroneous
      have hresult : groupRangeIncl myPid nextGroup g.toGroup ranges =
          .ok ⟨handle, ownRank myPid (membersAt g.members (expansion ranges)),
            membersAt g.members (expansion ranges)⟩ := by
        rw [hrun, Outcome.andThen, hlength, hhandle]
        rfl
      refine iff_of_true ⟨?_, ?_, ?_⟩ ⟨hunseen, hentry⟩
      · rw [hresult]
        exact nofun
      · intro _ _
        refine ⟨_, hresult, ?_⟩
        rw [groupIncl, hhandle, Outcome.andThen,
          inclMembers_eq fun e he => mem_expansion hvalid he]
        rfl
      · refine iff_of_false ?_ herroneous
        rintro ⟨code, hcode⟩
        rw [hresult] at hcode
        cases hcode
    · refine iff_of_false (fun h => ?_) fun h => hentry h.2
      -- the table is full, and there is something to enter
      obtain ⟨hfull, hne⟩ := not_or.mp hentry
      have hne : ranges ≠ [] := fun hnil => hne (Or.inl hnil)
      have hsome : (expansion ranges).length ≠ 0 := by
        cases ranges with
        | nil => exact absurd rfl hne
        | cons r ranges =>
            rw [expansion_cons, List.length_append, length_expand]
            have := count_pos r
            omega
      refine herroneous (h.error.mp ⟨empiErrIntern, ?_⟩)
      rw [hrun, Outcome.andThen, hlength, createGroup, if_neg hsome,
        if_pos (Nat.not_lt.mp hfull)]
      rfl
  · -- a range has wrapped
    refine iff_of_false (fun h => ?_) fun h => hunseen h.1
    rcases hbad with hout | ⟨⟨code, hcode⟩, hnot⟩
    · exact h.reads (by rw [hrun, hout]; rfl)
    · exact hnot (h.error.mp ⟨code, by rw [hrun, hcode]; rfl⟩)

/-- A group of three members. -/
def threeMembers : NonemptyGroup where
  handle := 2
  rank := 0
  members := [setPid 0 0, setPid 0 1, setPid 1 0]
  members_ne := by decide
  size_lt := by decide

/-- The range (1, 1, 2147483647) stands for rank 1.  The loop goes on with rank
-2147483648. -/
theorem not_rangeInclLikeIncl_wrapped :
    expansion [⟨1, 1, 2147483647⟩] = [1] ∧
      groupRangeIncl (setPid 0 0) 3 threeMembers.toGroup [⟨1, 1, 2147483647⟩] = .outOfBounds ∧
        ¬ RangeInclLikeIncl (setPid 0 0) 3 threeMembers.toGroup [⟨1, 1, 2147483647⟩] := by
  have hout : groupRangeIncl (setPid 0 0) 3 threeMembers.toGroup [⟨1, 1, 2147483647⟩] =
      .outOfBounds := by decide
  exact ⟨by decide, hout, fun h => h.reads hout⟩

/-- The reversal of a group. -/
example : groupRangeIncl (setPid 0 0) 3 threeMembers.toGroup [⟨2, 0, -1⟩] =
    .ok ⟨3, 2, [setPid 1 0, setPid 0 1, setPid 0 0]⟩ := by decide

end Groups

end EsalsaMpi
