import EsalsaMpi.Backend.GroupRange
import Mathlib.Data.Finset.Card

/-!
# The union of groups

`group_union` collects the members of the first group and behind them those of the second
that are not in the first.  The rank of the process in the result is not searched for: it is
the rank in the first group, or the place at which the loop over the second group has put
the process.

This relies on the ranks of the two groups, and on the sum of their sizes, which is an
`int`.  When the ranks fit and the sum is below `2 ^ 31`, the result is the union
(`unites_iff`).
-/

namespace EsalsaMpi

namespace Groups

/-- A group with distinct members. -/
structure DistinctGroup extends Group where
  nodup : members.Nodup
  size_lt : members.length < 2 ^ 31

/-- What `group_union` collects: `members`, and `rank`. -/
structure Collected where
  members : List Pid
  rank : Int
deriving DecidableEq, Repr

/-- A round of the loop over the second group. -/
def Collected.add (myPid : Pid) (first : List Pid) (c : Collected) (current : Pid) :
    Collected :=
  if first.any (current == ·) then c
  else
    { members := c.members ++ [current]
      rank := if current = myPid then c.members.length else c.rank }

/-- The loops of `group_union`. -/
def collect (myPid : Pid) (first second : List Pid) : Collected :=
  second.foldl (Collected.add myPid first) ⟨first, -1⟩

/-- `group_union`. -/
def groupUnion (myPid : Pid) (nextGroup : Nat) (in1 in2 : Group) : Outcome Group :=
  let size := Int32.ofNat in1.members.length + Int32.ofNat in2.members.length
  let collected := if 0 < size then collect myPid in1.members in2.members else ⟨[], -1⟩
  (createGroup nextGroup collected.members.length).andThen fun handle =>
    .ok
      { handle := handle
        rank :=
          if in1.rank ≠ -1 then in1.rank
          else if in2.rank ≠ -1 then collected.rank
          else -1
        members := collected.members }

/-! ### What a union is -/

/-- The members of the first list, and then those of the second that are not in it. -/
def unionMembers (first second : List Pid) : List Pid :=
  first ++ second.filter (· ∉ first)

/-- The place of a process in a list, or -1. -/
def rankIn (myPid : Pid) (members : List Pid) : Int :=
  if myPid ∈ members then members.idxOf myPid else -1

/-- **The union of two groups**: the members of the first and those of the second that are
not in it, as many as there are distinct processes, and the rank of the process. -/
structure IsUnion (myPid : Pid) (in1 in2 res : Group) : Prop where
  members : res.members = unionMembers in1.members in2.members
  size : res.members.length = (in1.members ++ in2.members).toFinset.card
  rank : res.rank = rankIn myPid res.members

/-- There is an entry in the table of groups for a union, if it takes one. -/
def HasRoom (nextGroup : Nat) (in1 in2 : Group) : Prop :=
  nextGroup < maxGroups ∨ in1.members = [] ∧ in2.members = []

/-- **`group_union` unites**: it returns, unless the table is full, and what it returns is
the union. -/
structure Unites (myPid : Pid) (nextGroup : Nat) (in1 in2 : Group) : Prop where
  returns : HasRoom nextGroup in1 in2 → ∃ res, groupUnion myPid nextGroup in1 in2 = .ok res
  union : ∀ res, groupUnion myPid nextGroup in1 in2 = .ok res → IsUnion myPid in1 in2 res

/-- The sum of the sizes is an `int`. -/
def SizesFit (in1 in2 : Group) : Prop := in1.members.length + in2.members.length < 2 ^ 31

/-- The ranks lead to the place of the process: that of the first group is this place, or
it is -1 and the process is not in the first group, nor in the second when the rank there is
-1 as well. -/
def RanksFit (myPid : Pid) (in1 in2 : Group) : Prop :=
  if in1.rank = -1 then myPid ∉ in1.members ∧ (in2.rank = -1 → myPid ∉ in2.members)
  else in1.rank = rankIn myPid (unionMembers in1.members in2.members)

/-- **The laws of a union**, for the calls in which the sums are an `int`. -/
structure UnionLaws (myPid : Pid) : Prop where
  idempotent : ∀ (n : Nat) (a : DistinctGroup) res, SizesFit a.toGroup a.toGroup →
    groupUnion myPid n a.toGroup a.toGroup = .ok res →
      res.members = a.members ∧ res.rank = a.rank
  associative : ∀ (i j k l : Nat) (a b c : DistinctGroup) ab bc left right,
    SizesFit a.toGroup b.toGroup → groupUnion myPid i a.toGroup b.toGroup = .ok ab →
    SizesFit ab c.toGroup → groupUnion myPid j ab c.toGroup = .ok left →
    SizesFit b.toGroup c.toGroup → groupUnion myPid k b.toGroup c.toGroup = .ok bc →
    SizesFit a.toGroup bc → groupUnion myPid l a.toGroup bc = .ok right →
      left.members = right.members
  left_identity : ∀ (n : Nat) (e : Group) (a : DistinctGroup) res, e.members = [] →
    e.rank = -1 → a.rank = rankIn myPid a.members →
      groupUnion myPid n e a.toGroup = .ok res → res.members = a.members ∧ res.rank = a.rank
  right_identity : ∀ (n : Nat) (e : Group) (a : DistinctGroup) res, e.members = [] →
    e.rank = -1 → groupUnion myPid n a.toGroup e = .ok res →
      res.members = a.members ∧ res.rank = a.rank

/-! ### The lists -/

section Lists

variable {myPid : Pid} {first second third : List Pid}

theorem mem_unionMembers {pid : Pid} :
    pid ∈ unionMembers first second ↔ pid ∈ first ∨ pid ∈ second := by
  rw [unionMembers, List.mem_append, List.mem_filter, decide_eq_true_iff]
  constructor
  · rintro (h | ⟨h, _⟩)
    · exact Or.inl h
    · exact Or.inr h
  · intro h
    by_cases hfirst : pid ∈ first
    · exact Or.inl hfirst
    · exact Or.inr ⟨h.resolve_left hfirst, hfirst⟩

theorem nodup_unionMembers (hfirst : first.Nodup) (hsecond : second.Nodup) :
    (unionMembers first second).Nodup := by
  refine List.nodup_append.mpr ⟨hfirst, hsecond.filter _, ?_⟩
  intro pid hpid other hother heq
  have hnot := (List.mem_filter.mp hother).2
  exact of_decide_eq_true hnot (heq ▸ hpid)

/-- Nothing is added to a list by members that it has. -/
theorem unionMembers_of_subset (h : ∀ pid ∈ second, pid ∈ first) :
    unionMembers first second = first := by
  rw [unionMembers, List.filter_eq_nil_iff.mpr, List.append_nil]
  intro pid hpid
  simpa using h pid hpid

theorem unionMembers_nil_left : unionMembers [] second = second := by
  rw [unionMembers, List.nil_append, List.filter_eq_self]
  simp

theorem unionMembers_assoc :
    unionMembers (unionMembers first second) third =
      unionMembers first (unionMembers second third) := by
  have hboth : (third.filter (· ∉ second)).filter (· ∉ first) =
      third.filter (· ∉ unionMembers first second) := by
    rw [List.filter_filter]
    apply List.filter_congr
    intro pid _
    simp [mem_unionMembers]
  calc unionMembers (unionMembers first second) third
      = first ++ second.filter (· ∉ first) ++ third.filter (· ∉ unionMembers first second) := rfl
    _ = first ++ (second.filter (· ∉ first) ++ (third.filter (· ∉ second)).filter (· ∉ first)) := by
        rw [hboth, List.append_assoc]
    _ = first ++ (second ++ third.filter (· ∉ second)).filter (· ∉ first) := by
        rw [List.filter_append]

/-- The size of the union is the number of distinct processes. -/
theorem length_unionMembers (hfirst : first.Nodup) (hsecond : second.Nodup) :
    (unionMembers first second).length = (first ++ second).toFinset.card := by
  rw [← List.toFinset_card_of_nodup (nodup_unionMembers hfirst hsecond)]
  congr 1
  ext pid
  rw [List.mem_toFinset, List.mem_toFinset, mem_unionMembers, List.mem_append]

/-- A place, or -1. -/
theorem rankIn_eq_neg_one_iff {members : List Pid} :
    rankIn myPid members = -1 ↔ myPid ∉ members := by
  rw [rankIn]
  split
  · rename_i h
    exact iff_of_false (by omega) (not_not.mpr h)
  · rename_i h
    exact iff_of_true rfl h

theorem rankIn_of_mem {members : List Pid} (h : myPid ∈ members) :
    rankIn myPid members = members.idxOf myPid := if_pos h

theorem add_of_mem {current : Pid} (h : current ∈ first) (c : Collected) :
    c.add myPid first current = c :=
  if_pos (List.any_eq_true.mpr ⟨current, h, beq_self_eq_true current⟩)

theorem add_of_not_mem {current : Pid} (h : current ∉ first) (c : Collected) :
    c.add myPid first current =
      ⟨c.members ++ [current], if current = myPid then c.members.length else c.rank⟩ := by
  refine if_neg fun hany => ?_
  obtain ⟨pid, hpid, heq⟩ := List.any_eq_true.mp hany
  exact h (beq_iff_eq.mp heq ▸ hpid)

/-- What the loop over the second group collects. -/
theorem members_foldl_add (second : List Pid) (c : Collected) :
    (second.foldl (Collected.add myPid first) c).members =
      c.members ++ second.filter (· ∉ first) := by
  induction second generalizing c with
  | nil => simp
  | cons current second ih =>
      rw [List.foldl_cons, ih]
      by_cases h : current ∈ first
      · rw [add_of_mem h, List.filter_cons_of_neg (by simpa using h)]
      · rw [add_of_not_mem h, List.filter_cons_of_pos (by simpa using h), List.append_assoc]
        rfl

/-- The loop does not touch the rank when it does not find the process. -/
theorem rank_foldl_add_of_not_mem (h : myPid ∈ second → myPid ∈ first) (c : Collected) :
    (second.foldl (Collected.add myPid first) c).rank = c.rank := by
  induction second generalizing c with
  | nil => rfl
  | cons current second ih =>
      rw [List.foldl_cons, ih fun hmem => h (List.mem_cons_of_mem _ hmem)]
      by_cases hfirst : current ∈ first
      · rw [add_of_mem hfirst]
      · have hne : current ≠ myPid := by
          rintro rfl
          exact hfirst (h List.mem_cons_self)
        rw [add_of_not_mem hfirst, if_neg hne]

/-- When it does, it sets the rank to the place of the process. -/
theorem rank_foldl_add_of_mem (hnodup : second.Nodup) (hmem : myPid ∈ second)
    (hfirst : myPid ∉ first) (c : Collected) (hc : myPid ∉ c.members) :
    (second.foldl (Collected.add myPid first) c).rank =
      rankIn myPid (c.members ++ second.filter (· ∉ first)) := by
  induction second generalizing c with
  | nil => cases hmem
  | cons current second ih =>
      obtain ⟨hcurrent, hnodup⟩ := List.nodup_cons.mp hnodup
      rw [List.foldl_cons]
      by_cases hown : current = myPid
      · subst hown
        rw [rank_foldl_add_of_not_mem fun h => absurd h hcurrent, add_of_not_mem hfirst,
          if_pos rfl, List.filter_cons_of_pos (by simpa using hfirst), rankIn_of_mem (by simp),
          List.idxOf_append_of_notMem hc, List.idxOf_cons_self, Nat.add_zero]
      · have hmem : myPid ∈ second := by
          rcases List.mem_cons.mp hmem with rfl | h
          · exact absurd rfl hown
          · exact h
        by_cases h : current ∈ first
        · rw [add_of_mem h, ih hnodup hmem c hc, List.filter_cons_of_neg (by simpa using h)]
        · rw [add_of_not_mem h, ih hnodup hmem _ (by simp [hc, Ne.symm hown]),
            List.filter_cons_of_pos (by simpa using h), List.append_assoc]
          rfl

/-- **What `group_union` collects**: the union, and where the process is in it if it is from
the second group. -/
theorem collect_eq (hsecond : second.Nodup) :
    collect myPid first second =
      { members := unionMembers first second
        rank :=
          if myPid ∈ second ∧ myPid ∉ first then rankIn myPid (unionMembers first second)
          else -1 } := by
  have hmembers : (collect myPid first second).members = unionMembers first second :=
    members_foldl_add second _
  have hrank : (collect myPid first second).rank =
      if myPid ∈ second ∧ myPid ∉ first then rankIn myPid (unionMembers first second)
      else -1 := by
    split
    · rename_i h
      exact rank_foldl_add_of_mem hsecond h.1 h.2 _ h.2
    · rename_i h
      refine rank_foldl_add_of_not_mem (fun hmem => ?_) _
      by_contra hfirst
      exact h ⟨hmem, hfirst⟩
  rw [← hrank, ← hmembers]

end Lists

/-! ### The function -/

section Union

variable {myPid : Pid} {n : Nat} {in1 in2 res : Group}

/-- The rank that `group_union` gives to its result. -/
def unionRank (myPid : Pid) (in1 in2 : Group) : Int :=
  if in1.rank ≠ -1 then in1.rank
  else if in2.rank ≠ -1 then (collect myPid in1.members in2.members).rank
  else -1

/-- A sum of sizes that is an `int`. -/
theorem groupUnion_of_fit (hsecond : in2.members.Nodup) (hfit : SizesFit in1 in2) :
    groupUnion myPid n in1 in2 =
      (createGroup n (unionMembers in1.members in2.members).length).andThen fun handle =>
        .ok ⟨handle, unionRank myPid in1 in2, unionMembers in1.members in2.members⟩ := by
  have hsum : (Int32.ofNat in1.members.length + Int32.ofNat in2.members.length).toInt =
      ((in1.members.length + in2.members.length : Nat) : Int) := by
    rw [← Int32.ofNat_add]
    exact Int32.toInt_ofNat_of_lt hfit
  have hcollect := @collect_eq myPid in1.members in2.members hsecond
  rw [groupUnion, unionRank]
  by_cases hpos : 0 < in1.members.length + in2.members.length
  · have hsize : 0 < Int32.ofNat in1.members.length + Int32.ofNat in2.members.length := by
      rw [Int32.lt_iff_toInt_lt, hsum]
      exact Int.natCast_pos.mpr hpos
    simp only [if_pos hsize]
    rw [hcollect]
  · have hsize : ¬ 0 < Int32.ofNat in1.members.length + Int32.ofNat in2.members.length := by
      rw [Int32.lt_iff_toInt_lt, hsum]
      exact fun h => hpos (Int.natCast_pos.mp h)
    have hfirst : in1.members = [] := List.eq_nil_of_length_eq_zero (by omega)
    have hsecond : in2.members = [] := List.eq_nil_of_length_eq_zero (by omega)
    simp only [if_neg hsize]
    rw [hfirst, hsecond]
    rfl

/-- A sum that is not: it is negative, and nothing is collected. -/
theorem groupUnion_of_not_fit (hfirst : in1.members.length < 2 ^ 31)
    (hsecond : in2.members.length < 2 ^ 31) (hfit : ¬ SizesFit in1 in2) :
    ∃ rank, groupUnion myPid n in1 in2 = .ok ⟨empiGroupEmpty, rank, []⟩ := by
  have hlarge : 2 ^ 31 ≤ in1.members.length + in2.members.length := Nat.not_lt.mp hfit
  have hsize : ¬ 0 < Int32.ofNat in1.members.length + Int32.ofNat in2.members.length := by
    rw [← Int32.ofNat_add, Int32.lt_iff_toInt_lt, Int32.toInt_ofNat', Int.bmod_def]
    simp only [Int32.toInt_zero, show Int32.size = 2 ^ 32 from rfl]
    split <;> omega
  rw [groupUnion]
  simp only [if_neg hsize]
  exact ⟨_, rfl⟩

/-- Where there is room, there is a handle. -/
theorem exists_handle (hroom : HasRoom n in1 in2) :
    ∃ handle, createGroup n (unionMembers in1.members in2.members).length = .ok handle := by
  rcases hroom with hlt | ⟨hfirst, hsecond⟩
  · rw [createGroup, if_neg (Nat.not_le.mpr hlt)]
    split
    · exact ⟨_, rfl⟩
    · exact ⟨_, rfl⟩
  · rw [hfirst, hsecond]
    exact ⟨_, rfl⟩

/-- What `group_union` returns when the sum is an `int`. -/
theorem eq_of_groupUnion (hsecond : in2.members.Nodup) (hfit : SizesFit in1 in2)
    (h : groupUnion myPid n in1 in2 = .ok res) :
    res.members = unionMembers in1.members in2.members ∧ res.rank = unionRank myPid in1 in2 ∧
      HasRoom n in1 in2 := by
  rw [groupUnion_of_fit hsecond hfit] at h
  by_cases hroom : HasRoom n in1 in2
  · obtain ⟨handle, hhandle⟩ := exists_handle hroom
    rw [hhandle, Outcome.andThen] at h
    cases h
    exact ⟨rfl, rfl, hroom⟩
  · obtain ⟨hfull, hsome⟩ := not_or.mp hroom
    have hne : (unionMembers in1.members in2.members).length ≠ 0 := by
      intro hzero
      rw [unionMembers, List.length_append, Nat.add_eq_zero_iff] at hzero
      have hnil := List.eq_nil_of_length_eq_zero hzero.1
      have hfilter := hzero.2
      rw [hnil] at hfilter
      refine hsome ⟨hnil, List.eq_nil_of_length_eq_zero ?_⟩
      simpa using hfilter
    rw [createGroup, if_neg hne, if_pos (Nat.not_lt.mp hfull)] at h
    cases h

/-- **The rank of a union** is the place of the process if and only if the ranks fit. -/
theorem unionRank_eq_iff (hsecond : in2.members.Nodup) :
    unionRank myPid in1 in2 = rankIn myPid (unionMembers in1.members in2.members) ↔
      RanksFit myPid in1 in2 := by
  rw [unionRank, RanksFit, collect_eq hsecond]
  by_cases hone : in1.rank = -1
  · rw [if_neg (not_not.mpr hone), if_pos hone]
    by_cases htwo : in2.rank = -1
    · rw [if_neg (not_not.mpr htwo), eq_comm, rankIn_eq_neg_one_iff, mem_unionMembers, not_or]
      exact and_congr_right fun _ => ⟨fun h _ => h, fun h => h htwo⟩
    · rw [if_pos htwo]
      by_cases hmem : myPid ∈ in2.members ∧ myPid ∉ in1.members
      · rw [if_pos hmem]
        exact iff_of_true rfl ⟨hmem.2, fun h => absurd h htwo⟩
      · rw [if_neg hmem, eq_comm, rankIn_eq_neg_one_iff, mem_unionMembers, not_or]
        constructor
        · exact fun h => ⟨h.1, fun h => absurd h htwo⟩
        · exact fun h => ⟨h.1, fun hin => hmem ⟨hin, h.1⟩⟩
  · rw [if_pos hone, if_neg hone]

/-- **Two groups.** -/
theorem unites_iff_fit (n : Nat) (in1 in2 : DistinctGroup) :
    Unites myPid n in1.toGroup in2.toGroup ↔
      SizesFit in1.toGroup in2.toGroup ∧
        (HasRoom n in1.toGroup in2.toGroup → RanksFit myPid in1.toGroup in2.toGroup) := by
  constructor
  · intro h
    have hfit : SizesFit in1.toGroup in2.toGroup := by
      by_contra hfit
      obtain ⟨rank, hempty⟩ := @groupUnion_of_not_fit myPid n _ _ in1.size_lt in2.size_lt hfit
      have hnil : [] = unionMembers in1.members in2.members := (h.union _ hempty).members
      obtain ⟨hfirst, hrest⟩ := List.append_eq_nil_iff.mp hnil.symm
      rw [hfirst] at hrest
      have hsecond : in2.members = [] := by simpa using hrest
      refine hfit ?_
      rw [SizesFit, hfirst, hsecond]
      decide
    refine ⟨hfit, fun hroom => ?_⟩
    obtain ⟨res, hres⟩ := h.returns hroom
    obtain ⟨hmembers, hrank, _⟩ := eq_of_groupUnion in2.nodup hfit hres
    rw [← unionRank_eq_iff in2.nodup, ← hrank, ← hmembers]
    exact (h.union res hres).rank
  · rintro ⟨hfit, hranks⟩
    constructor
    · intro hroom
      obtain ⟨handle, hhandle⟩ := exists_handle hroom
      refine ⟨⟨handle, unionRank myPid in1.toGroup in2.toGroup,
        unionMembers in1.members in2.members⟩, ?_⟩
      rw [groupUnion_of_fit in2.nodup hfit, hhandle]
      rfl
    · intro res hres
      obtain ⟨hmembers, hrank, hroom⟩ := eq_of_groupUnion in2.nodup hfit hres
      refine ⟨hmembers, ?_, ?_⟩
      · rw [hmembers, length_unionMembers in1.nodup in2.nodup]
      · rw [hmembers, hrank]
        exact (unionRank_eq_iff in2.nodup).mpr (hranks hroom)

theorem unionLaws (myPid : Pid) : UnionLaws myPid where
  idempotent := by
    intro n a res hfit hres
    obtain ⟨hmembers, hrank, _⟩ := eq_of_groupUnion a.nodup hfit hres
    refine ⟨hmembers.trans (unionMembers_of_subset fun _ h => h), hrank.trans ?_⟩
    rw [unionRank]
    by_cases h : a.rank = -1
    · rw [if_neg (not_not.mpr h), if_neg (not_not.mpr h), h]
    · exact if_pos h
  associative := by
    intro i j k l a b c ab bc left right hab hisAb hleft hisLeft hbc hisBc hright hisRight
    have hbcNodup : bc.members.Nodup := by
      rw [(eq_of_groupUnion c.nodup hbc hisBc).1]
      exact nodup_unionMembers b.nodup c.nodup
    rw [(eq_of_groupUnion c.nodup hleft hisLeft).1, (eq_of_groupUnion b.nodup hab hisAb).1,
      (eq_of_groupUnion hbcNodup hright hisRight).1, (eq_of_groupUnion c.nodup hbc hisBc).1]
    exact unionMembers_assoc
  left_identity := by
    intro n e a res hnil hnone hrank hres
    have hfit : SizesFit e a.toGroup := by
      rw [SizesFit, hnil, List.length_nil, Nat.zero_add]
      exact a.size_lt
    obtain ⟨hmembers, hres, _⟩ := eq_of_groupUnion a.nodup hfit hres
    rw [hnil, unionMembers_nil_left] at hmembers
    refine ⟨hmembers, ?_⟩
    have hranks : RanksFit myPid e a.toGroup := by
      rw [RanksFit, if_pos hnone, hnil]
      refine ⟨List.not_mem_nil, fun h => rankIn_eq_neg_one_iff.mp ?_⟩
      rw [← hrank, h]
    rw [hres, (unionRank_eq_iff a.nodup).mpr hranks, hnil, unionMembers_nil_left, hrank]
  right_identity := by
    intro n e a res hnil hnone hres
    have hfit : SizesFit a.toGroup e := by
      rw [SizesFit, hnil, List.length_nil, Nat.add_zero]
      exact a.size_lt
    have hnodup : e.members.Nodup := hnil ▸ List.nodup_nil
    obtain ⟨hmembers, hrank, _⟩ := eq_of_groupUnion hnodup hfit hres
    refine ⟨hmembers.trans (unionMembers_of_subset ?_), hrank.trans ?_⟩
    · rw [hnil]
      exact fun pid h => absurd h List.not_mem_nil
    · rw [unionRank]
      by_cases h : a.rank = -1
      · rw [if_neg (not_not.mpr h), if_neg (not_not.mpr hnone), h]
      · exact if_pos h

end Union

/-- **The union of groups.**  For any two groups with distinct members, `group_union` unites
them if and only if the sum of the sizes is an `int` and, where the table has room, the
ranks lead to the place of the process.  Union is idempotent and associative and has every
group of size zero with rank -1 as identity. -/
theorem unites_iff (myPid : Pid) :
    (∀ (n : Nat) (in1 in2 : DistinctGroup), Unites myPid n in1.toGroup in2.toGroup ↔
      SizesFit in1.toGroup in2.toGroup ∧
        (HasRoom n in1.toGroup in2.toGroup → RanksFit myPid in1.toGroup in2.toGroup)) ∧
      UnionLaws myPid :=
  ⟨unites_iff_fit, unionLaws myPid⟩

/-- What is left of `EMPI_GROUP_EMPTY` after `EMPI_Comm_group` on `EMPI_COMM_NULL`. -/
def emptyWithRank : DistinctGroup where
  handle := empiGroupEmpty
  rank := 0
  members := []
  nodup := List.nodup_nil
  size_lt := by decide

/-- A group of another process. -/
def otherProcess : DistinctGroup where
  handle := 2
  rank := -1
  members := [setPid 1 0]
  nodup := List.nodup_singleton _
  size_lt := by decide

/-- The union with a group that has no members but a rank: the process gets this rank among
the members, of which it is none. -/
theorem not_unites_emptyWithRank :
    groupUnion (setPid 0 0) 3 emptyWithRank.toGroup otherProcess.toGroup =
      .ok ⟨3, 0, [setPid 1 0]⟩ ∧
      ¬ Unites (setPid 0 0) 3 emptyWithRank.toGroup otherProcess.toGroup := by
  have hrun : groupUnion (setPid 0 0) 3 emptyWithRank.toGroup otherProcess.toGroup =
      .ok ⟨3, 0, [setPid 1 0]⟩ := by decide
  refine ⟨hrun, fun h => ?_⟩
  have hrank : (0 : Int) = rankIn (setPid 0 0) [setPid 1 0] := (h.union _ hrun).rank
  exact absurd hrank (by decide)

end Groups

end EsalsaMpi
