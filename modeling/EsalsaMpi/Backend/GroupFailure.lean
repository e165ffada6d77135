import EsalsaMpi.Backend.GroupTable

/-!
# A group that is not made

`group_incl` enters the new group in the table before it looks at the ranks.  When a rank is
out of bounds `delete_group` clears the place again, but not the counter `next_group`, and
`add_group` goes by the counter alone.  The live groups are as they were, and one group fewer
can be made (`incl_failure_costs_place`): after as many failures as there were places left,
every call that should make a group with members fails with `MAX_GROUPS reached`.

The runs of a process perform the same function: the table that `GroupTable.groupIncl` writes
place by place is the one that a call leaves behind (`perform_incl`), as the places from the
counter on are empty after any calls (`fresh_of_calls`).
-/

namespace EsalsaMpi

namespace Groups

namespace GroupTable

/-- `add_group`: the place of the new group, of which nothing is written yet. -/
def addGroup (t : GroupTable) : Option (Nat × GroupTable) :=
  if maxGroups ≤ t.nextGroup then
    none
  else
    some (t.nextGroup, {
      nextGroup := t.nextGroup + 1
      groups := Function.update t.groups t.nextGroup (some ⟨t.nextGroup, -1, []⟩) })

/-- `delete_group` on the group in a place. -/
def deleteGroup (t : GroupTable) (handle : Nat) : GroupTable :=
  if handle = empiGroupEmpty then t
  else { t with groups := Function.update t.groups handle none }

/-- `group_incl` on the table, where `malloc` succeeds. -/
def groupIncl (myPid : Pid) (t : GroupTable) (g : Group) (ranks : List Int) :
    Outcome Group × GroupTable :=
  if ranks.length = 0 then
    (.ok ⟨empiGroupEmpty, -1, []⟩, (t.store ⟨empiGroupEmpty, -1, []⟩).1)
  else
    match t.addGroup with
    | none => (.error empiErrIntern, t)
    | some (handle, t') =>
      match inclMembers g.members ranks with
      | .ok members =>
        (.ok ⟨handle, ownRank myPid members, members⟩,
          { t' with
            groups := Function.update t'.groups handle
              (some ⟨handle, ownRank myPid members, members⟩) })
      | .error code => (.error code, t'.deleteGroup handle)
      | .outOfBounds => (.outOfBounds, t')

/-- How many groups with members can still be made. -/
def room (t : GroupTable) : Nat := maxGroups - t.nextGroup

/-- The live groups, their contents and the room for more are the same. -/
structure Unchanged (t t' : GroupTable) : Prop where
  groups : t'.groups = t.groups
  room : t'.room = t.room

end GroupTable

/-- So many calls of `group_incl` in a row that return `EMPI_ERR_RANK`. -/
inductive Failures (pid : Pid) (t : GroupTable) : Nat → GroupTable → Prop where
  | none : Failures pid t 0 t
  | next {n : Nat} {t' t'' : GroupTable} (h : Failures pid t n t') (g : Group)
      (ranks : List Int) (hfail : t'.groupIncl pid g ranks = (.error empiErrRank, t'')) :
      Failures pid t (n + 1) t''

variable {pid : Pid} {t t' : GroupTable} {g : Group} {ranks : List Int}

theorem addGroup_eq (h : t.nextGroup < maxGroups) :
    t.addGroup = some (t.nextGroup, {
      nextGroup := t.nextGroup + 1
      groups := Function.update t.groups t.nextGroup (some ⟨t.nextGroup, -1, []⟩) }) :=
  if_neg (Nat.not_le.mpr h)

/-- **What a failure leaves behind**: its place is empty, and the counter has gone up. -/
theorem failed_groupIncl (h : t.groupIncl pid g ranks = (.error empiErrRank, t')) :
    ranks.length ≠ 0 ∧ t.nextGroup < maxGroups ∧
      t' = GroupTable.deleteGroup
        ⟨t.nextGroup + 1, Function.update t.groups t.nextGroup (some ⟨t.nextGroup, -1, []⟩)⟩
        t.nextGroup := by
  unfold GroupTable.groupIncl at h
  split at h
  · cases h
  · rename_i hlength
    by_cases hfull : maxGroups ≤ t.nextGroup
    · rw [show t.addGroup = none from if_pos hfull] at h
      cases h
    · have hlt : t.nextGroup < maxGroups := Nat.lt_of_not_le hfull
      rw [addGroup_eq hlt] at h
      simp only at h
      refine ⟨hlength, hlt, ?_⟩
      split at h
      · cases h
      · exact (Prod.mk.inj h).2.symm
      · cases h

/-- Every failure costs a place. -/
theorem room_failed (h : t.groupIncl pid g ranks = (.error empiErrRank, t')) :
    t'.room + 1 = t.room := by
  obtain ⟨_, hlt, rfl⟩ := failed_groupIncl h
  have hnext : ∀ s : GroupTable, (s.deleteGroup t.nextGroup).nextGroup = s.nextGroup := by
    intro s
    unfold GroupTable.deleteGroup
    split <;> rfl
  rw [GroupTable.room, GroupTable.room, hnext]
  simp only
  omega

/-- Without room no group with members is made. -/
theorem groupIncl_of_full (h : t.room = 0) (g : Group) (hranks : ranks ≠ []) :
    t.groupIncl pid g ranks = (.error empiErrIntern, t) := by
  have hfull : maxGroups ≤ t.nextGroup := Nat.le_of_sub_eq_zero h
  have hlength : ranks.length ≠ 0 := fun hzero => hranks (List.length_eq_zero_iff.mp hzero)
  unfold GroupTable.groupIncl
  rw [if_neg hlength, show t.addGroup = none from if_pos hfull]

/-- **Failures cost places.**  The table is never unchanged after calls that return
`EMPI_ERR_RANK`: one group fewer can be made for each of them, and after as many as there
was room for, no group with members can be made. -/
theorem incl_failure_costs_place {n : Nat} (h : Failures pid t n t') :
    t'.room + n = t.room ∧ (n ≠ 0 → ¬ t.Unchanged t') ∧
      (n = t.room → ∀ g ranks, ranks ≠ [] →
        t'.groupIncl pid g ranks = (.error empiErrIntern, t')) := by
  have hroom : t'.room + n = t.room := by
    induction h with
    | none => rfl
    | next _ g ranks hfail ih =>
        have hlast := room_failed hfail
        omega
  refine ⟨hroom, fun hn hsame => ?_, fun hall g ranks hranks => ?_⟩
  · have := hsame.room
    omega
  · exact groupIncl_of_full (by omega) g hranks

/-! ### The calls of a run -/

/-- No place from the counter on is in use. -/
structure GroupTable.Fresh (t : GroupTable) : Prop where
  next : empiGroupEmpty < t.nextGroup
  empty : ∀ h, t.nextGroup ≤ h → t.groups h = none

theorem fresh_init (left : Int) : (GroupTable.init left).Fresh where
  next := show 1 < 2 by decide
  empty := fun _ hle => if_neg (Nat.ne_of_gt (Nat.lt_of_succ_le hle))

theorem fresh_store (h : t.Fresh) (res : Group) : (t.store res).1.Fresh := by
  rw [GroupTable.store]
  split
  · refine ⟨h.next, fun i hi => ?_⟩
    have hne : i ≠ empiGroupEmpty := Nat.ne_of_gt (Nat.lt_of_lt_of_le h.next hi)
    simp only [Function.update_of_ne hne]
    exact h.empty i hi
  · refine ⟨h.next.trans (Nat.lt_succ_self _), fun i hi => ?_⟩
    have hne : i ≠ t.nextGroup := Nat.ne_of_gt (Nat.lt_of_succ_le hi)
    simp only [Function.update_of_ne hne]
    exact h.empty i (Nat.le_of_succ_le hi)

theorem fresh_discard (h : t.Fresh) (n : Nat) : (t.discard n).Fresh := by
  rw [GroupTable.discard]
  split
  · exact h
  · exact ⟨h.next.trans (Nat.lt_succ_self _), fun i hi => h.empty i (Nat.le_of_succ_le hi)⟩

theorem fresh_conclude {failed : GroupTable} {outcome : Outcome Group} (h : t.Fresh)
    (hfailed : failed.Fresh) {result : GroupTable × Option Int}
    (hresult : conclude t failed outcome = some result) : result.1.Fresh := by
  cases outcome with
  | ok res =>
      cases hresult
      exact fresh_store h res
  | error code =>
      cases hresult
      exact hfailed
  | outOfBounds => cases hresult

/-- No call of a process uses a place above the counter. -/
theorem fresh_perform (h : t.Fresh) {p : Process} {call : Call}
    {result : GroupTable × Option Int} (hresult : call.perform p t = some result) :
    result.1.Fresh := by
  cases call with
  | commGroup comm =>
      simp only [Call.perform] at hresult
      split at hresult
      · cases hresult
        exact h
      · exact fresh_conclude h h hresult
  | incl group ranks =>
      simp only [Call.perform] at hresult
      split at hresult
      · cases hresult
        exact h
      · exact fresh_conclude h (fresh_discard h _) hresult
  | rangeIncl group ranges =>
      simp only [Call.perform] at hresult
      split at hresult
      · cases hresult
        exact h
      · split at hresult
        · cases hresult
          exact h
        · exact fresh_conclude h h hresult
  | union group1 group2 =>
      simp only [Call.perform] at hresult
      split at hresult
      · exact fresh_conclude h h hresult
      · cases hresult
        exact h

/-- The table after calls of processes that end with a result or an error. -/
theorem fresh_of_calls {left : Int}
    (h : Relation.ReflTransGen (fun t t' : GroupTable => ∃ (p : Process) (call : Call)
      (handle : Option Int), call.perform p t = some (t', handle)) (GroupTable.init left) t) :
    t.Fresh := by
  induction h with
  | refl => exact fresh_init left
  | tail _ hcall ih =>
      obtain ⟨p, call, handle, hresult⟩ := hcall
      exact fresh_perform ih hresult

/-- Deleting the group in a place that was empty undoes the entry, but not the counter. -/
theorem deleteGroup_added (h : t.Fresh) (e : Option Entry) :
    GroupTable.deleteGroup ⟨t.nextGroup + 1, Function.update t.groups t.nextGroup e⟩ t.nextGroup =
      ⟨t.nextGroup + 1, t.groups⟩ := by
  have hgroups : Function.update t.groups t.nextGroup none = t.groups := by
    rw [← h.empty t.nextGroup (Nat.le_refl _), Function.update_eq_self]
  rw [GroupTable.deleteGroup, if_neg (Nat.ne_of_gt h.next)]
  simp only [Function.update_idem, hgroups]

/-- **A call of a run is `group_incl` on the table.**  Where it returns a group, this is
entered and the application gets its handle. -/
theorem perform_incl (h : t.Fresh) {p : Process} {group : Int} {e : Entry}
    (hentry : t.handleToGroup group = some e) (ranks : List Int) :
    (Call.incl group ranks).perform p t =
      match t.groupIncl p.pid e.toGroup ranks with
      | (.ok res, t') => some (t', (t.store res).2)
      | (.error _, t') => some (t', none)
      | (.outOfBounds, _) => none := by
  simp only [Call.perform, hentry]
  by_cases hlength : ranks.length = 0
  · -- the shared group is the result
    obtain rfl := List.length_eq_zero_iff.mp hlength
    rfl
  · rw [groupIncl, createGroup, if_neg hlength, GroupTable.groupIncl, if_neg hlength]
    by_cases hfull : maxGroups ≤ t.nextGroup
    · rw [if_pos hfull, show t.addGroup = none from if_pos hfull, GroupTable.discard,
        if_pos (Or.inr hfull)]
      rfl
    · have hlt : t.nextGroup < maxGroups := Nat.lt_of_not_le hfull
      have hdiscard : t.discard ranks.length = ⟨t.nextGroup + 1, t.groups⟩ := by
        rw [GroupTable.discard, if_neg (not_or.mpr ⟨hlength, hfull⟩)]
      rw [if_neg hfull, addGroup_eq hlt, hdiscard]
      simp only [Outcome.andThen]
      rcases inclMembers_cases e.toGroup.members ranks with ⟨code, hcode⟩ | ⟨hin, hok⟩
      · rw [hcode]
        simp only [conclude, deleteGroup_added h]
      · have hne : membersAt e.toGroup.members ranks ≠ [] := by
          intro hnil
          have hsame := length_membersAt hin
          rw [hnil] at hsame
          exact hlength hsame.symm
        rw [hok]
        simp only [conclude, GroupTable.store, if_neg hne, Function.update_idem]

/-- The table after a call that asks for the first member of `EMPI_GROUP_EMPTY`, right after
the start. -/
def failedOnce : GroupTable :=
  ((GroupTable.init 1).groupIncl (setPid 0 0) ⟨empiGroupEmpty, -1, []⟩ [0]).2

theorem incl_failure_of_empty :
    failedOnce.room + 1 = (GroupTable.init 1).room ∧ ¬ (GroupTable.init 1).Unchanged failedOnce :=
  have hlost := incl_failure_costs_place
    (Failures.next (@Failures.none (setPid 0 0) (.init 1)) ⟨empiGroupEmpty, -1, []⟩ [0] rfl)
  ⟨hlost.1, hlost.2.1 (by decide)⟩

/-- The same call returns `EMPI_ERR_RANK` and does not leave the table unchanged. -/
theorem not_unchanged_of_empty :
    (GroupTable.init 1).groupIncl (setPid 0 0) ⟨empiGroupEmpty, -1, []⟩ [0] =
      (.error empiErrRank, failedOnce) ∧ ¬ (GroupTable.init 1).Unchanged failedOnce :=
  ⟨rfl, fun h => absurd h.room (by decide)⟩

end Groups

end EsalsaMpi
