import EsalsaMpi.Backend.Collectives
import EsalsaMpi.Backend.GroupRange

/-!
# The ranks of one group in another

`EMPI_Group_translate_ranks` looks up the processes of some ranks of the first group in the
second.  The loop that searches the second group tests the place in the list of ranks where
it should test its own place: it does not begin behind as many ranks as the second group has
members, and when it begins it does not end without a hit.  It does what it is for if the
processes of the first ranks, as many as the second group has members, are all in the second
group, and those of the others are not (`translatesRanks_iff`).
-/

namespace EsalsaMpi

namespace Groups

/-- The loop over `j`, with `j` behind the members in front: it reads on until it finds the
process. -/
def findMember (pid : Pid) : List Pid → Nat → Outcome Int
  | [], _ => .outOfBounds
  | member :: rest, j => if member = pid then .ok j else findMember pid rest (j + 1)

/-- The entry of `ranks2` for place `i` and a process. -/
def translatedRank (second : List Pid) (i : Nat) (pid : Pid) : Outcome Int :=
  if i < second.length then findMember pid second 0 else .ok empiUndefined

/-- The loop over `i`: the entries of `ranks2`. -/
def translateFrom (first second : List Pid) : Nat → List Int → Outcome (List Int)
  | _, [] => .ok []
  | i, rank :: ranks1 =>
    if rank < 0 ∨ (first.length : Int) ≤ rank then
      .error empiErrRank
    else
      match memberAt first rank with
      | none => .outOfBounds
      | some pid =>
        (translatedRank second i pid).andThen fun rank2 =>
          (translateFrom first second (i + 1) ranks1).andThen fun ranks2 => .ok (rank2 :: ranks2)

/-- `EMPI_Group_translate_ranks`. -/
def translateRanks (in1 in2 : Group) (ranks1 : List Int) : Outcome (List Int) :=
  translateFrom in1.members in2.members 0 ranks1

/-- The rank of a process in a group, or `EMPI_UNDEFINED`. -/
def rankOrUndefined (second : List Pid) (pid : Pid) : Int :=
  if pid ∈ second then second.idxOf pid else empiUndefined

/-- **The call translates**: it ends, reads members only, and yields for each rank of the
first group the rank of its process in the second. -/
def TranslatesRanks (in1 in2 : Group) (ranks1 : List (Fin in1.members.length)) : Prop :=
  translateRanks in1 in2 (ranks1.map fun r => (r.val : Int)) =
    .ok (ranks1.map fun r => rankOrUndefined in2.members (in1.members.get r))

/-- The ranks in front, as many as the second group has members, are of processes in the
second group, and the others are not. -/
def FrontInSecond (in1 in2 : Group) (ranks1 : List (Fin in1.members.length)) : Prop :=
  ∀ (i : Nat) r, ranks1[i]? = some r →
    (in1.members.get r ∈ in2.members ↔ i < in2.members.length)

variable {first second : List Pid} {pid : Pid}

/-- The search finds the first place of a process, and runs out of the members without
one. -/
theorem findMember_eq (pid : Pid) (second : List Pid) (j : Nat) :
    findMember pid second j =
      if pid ∈ second then .ok ((j + second.idxOf pid : Nat) : Int) else .outOfBounds := by
  induction second generalizing j with
  | nil => rfl
  | cons member rest ih =>
      rw [findMember]
      by_cases hmember : member = pid
      · subst hmember
        rw [if_pos rfl, if_pos List.mem_cons_self, List.idxOf_cons_self]
        rfl
      · have hmem : pid ∈ member :: rest ↔ pid ∈ rest := by
          rw [List.mem_cons, or_iff_right (Ne.symm hmember)]
        rw [if_neg hmember, ih, List.idxOf_cons_ne rest hmember]
        simp only [hmem]
        rw [show j + 1 + rest.idxOf pid = j + (rest.idxOf pid).succ by omega]

/-- **One entry** is right if and only if the search begins just when there is something to
find. -/
theorem translatedRank_eq_iff {i : Nat} :
    translatedRank second i pid = .ok (rankOrUndefined second pid) ↔
      (pid ∈ second ↔ i < second.length) := by
  rw [translatedRank, rankOrUndefined, findMember_eq]
  by_cases hlt : i < second.length
  · rw [if_pos hlt]
    by_cases hmem : pid ∈ second
    · rw [if_pos hmem, if_pos hmem, Nat.zero_add]
      exact iff_of_true rfl (iff_of_true hmem hlt)
    · rw [if_neg hmem]
      exact iff_of_false nofun fun h => hmem (h.mpr hlt)
  · rw [if_neg hlt]
    by_cases hmem : pid ∈ second
    · rw [if_pos hmem]
      refine iff_of_false ?_ fun h => hlt (h.mp hmem)
      intro heq
      have hundefined : (-32766 : Int) = (second.idxOf pid : Int) := Outcome.ok.inj heq
      omega
    · rw [if_neg hmem]
      exact iff_of_true rfl (iff_of_false hmem hlt)

/-- The ranks from place `i` on. -/
theorem translateFrom_eq_iff (ranks1 : List (Fin first.length)) (i : Nat) :
    translateFrom first second i (ranks1.map fun r => (r.val : Int)) =
        .ok (ranks1.map fun r => rankOrUndefined second (first.get r)) ↔
      ∀ (k : Nat) r, ranks1[k]? = some r → (first.get r ∈ second ↔ i + k < second.length) := by
  induction ranks1 generalizing i with
  | nil => exact iff_of_true rfl fun k r hr => by cases hr
  | cons r ranks1 ih =>
      have hrank : ¬ ((r.val : Int) < 0 ∨ (first.length : Int) ≤ r.val) := by
        have := r.isLt
        omega
      have hmember : memberAt first (r.val : Int) = some (first.get r) := by
        rw [memberAt, if_neg (by omega), Int.toNat_natCast, List.getElem?_eq_getElem r.isLt]
        rfl
      rw [List.map_cons, List.map_cons, translateFrom, if_neg hrank]
      simp only [hmember]
      have hsplit : (∀ (k : Nat) r', (r :: ranks1)[k]? = some r' →
          (first.get r' ∈ second ↔ i + k < second.length)) ↔
          (first.get r ∈ second ↔ i < second.length) ∧
            ∀ (k : Nat) r', ranks1[k]? = some r' →
              (first.get r' ∈ second ↔ i + 1 + k < second.length) := by
        constructor
        · intro h
          refine ⟨h 0 r rfl, fun k r' hr' => ?_⟩
          rw [h (k + 1) r' hr', Nat.add_assoc, Nat.add_comm 1 k]
        · rintro ⟨hfirst, hrest⟩ k r' hr'
          cases k with
          | zero =>
              cases hr'
              exact hfirst
          | succ k =>
              rw [hrest k r' hr', Nat.add_assoc, Nat.add_comm 1 k]
      rw [hsplit, ← translatedRank_eq_iff, ← ih (i + 1)]
      constructor
      · intro h
        cases hentry : translatedRank second i (first.get r) with
        | ok rank2 =>
            rw [hentry] at h
            cases hrest : translateFrom first second (i + 1)
                (ranks1.map fun r => (r.val : Int)) with
            | ok ranks2 =>
                rw [hrest] at h
                obtain ⟨rfl, rfl⟩ := List.cons.inj (Outcome.ok.inj h)
                exact ⟨rfl, rfl⟩
            | error code =>
                rw [hrest] at h
                cases h
            | outOfBounds =>
                rw [hrest] at h
                cases h
        | error code =>
            rw [hentry] at h
            cases h
        | outOfBounds =>
            rw [hentry] at h
            cases h
      · rintro ⟨hentry, hrest⟩
        rw [hentry, hrest]
        rfl

/-- **Translating ranks.**  For any two groups and any ranks of the first, the call
translates if and only if the ranks in front, as many as the second group has members, are
of processes in the second group and the others are not. -/
theorem translatesRanks_iff (in1 in2 : Group) (ranks1 : List (Fin in1.members.length)) :
    TranslatesRanks in1 in2 ranks1 ↔ FrontInSecond in1 in2 ranks1 := by
  have h := @translateFrom_eq_iff in1.members in2.members ranks1 0
  simp only [Nat.zero_add] at h
  exact h

/-- One rank of a group of two in the group of the other process: the search reads behind the
only member.  Both ranks the other way round in this group: the search for the second does
not begin. -/
theorem not_translatesRanks_absent :
    translateRanks ⟨2, 0, [setPid 0 0, setPid 0 1]⟩ ⟨3, -1, [setPid 0 1]⟩ [0] = .outOfBounds ∧
      translateRanks ⟨2, 0, [setPid 0 0, setPid 0 1]⟩ ⟨3, -1, [setPid 0 1]⟩ [1, 1] =
        .ok [0, empiUndefined] ∧
      ¬ TranslatesRanks ⟨2, 0, [setPid 0 0, setPid 0 1]⟩ ⟨3, -1, [setPid 0 1]⟩
        [⟨0, by decide⟩] := by
  refine ⟨by decide, by decide, fun h => ?_⟩
  have hout : translateRanks ⟨2, 0, [setPid 0 0, setPid 0 1]⟩ ⟨3, -1, [setPid 0 1]⟩ [0] =
      .outOfBounds := by decide
  have hok := hout.symm.trans h
  cases hok

end Groups

end EsalsaMpi
