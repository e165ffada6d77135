import EsalsaMpi.Backend.Barrier.Program
import EsalsaMpi.Library.Looping
import EsalsaMpi.Library.ProcessNetwork

/-!
# The programs of a barrier's members

On a communicator that spans all clusters in order, the first coordinator
receives from all others and then sends to all of them, every other coordinator
sends once and waits once, and all this comes between the two barriers of the
library.  For each member, what comes first in its program has been done as often
as what comes later, at least (`performed_le_leave`, `performed_bcast_le` and so
on).
-/

namespace EsalsaMpi

open BarrierAction Looping FirstOccurrence

section Programs

variable {members : List Pid} {count rank : Nat}

/-- The coordinator of cluster `k`. -/
def coordinatorOf (members : List Pid) (k : Nat) : Nat := (clustersOf members).idxOf k

/-- The communicator spans `count` clusters in order. -/
def SpansInOrder (members : List Pid) (count : Nat) : Prop :=
  (Server.tablesSpec members).clusterRanks = List.range count

theorem getElem?_coordinators_of_spans (h : SpansInOrder members count) {i : Nat}
    (hi : i < count) :
    (Server.tablesSpec members).coordinators[i]? = some (coordinatorOf members i) := by
  rw [getElem?_coordinators, show _ = List.range count from h, List.getElem?_range hi]
  rfl

/-- The member that coordinates cluster `k` belongs to it. -/
theorem exists_coordinator (h : SpansInOrder members count) {k : Nat} (hk : k < count) :
    ∃ q, members[coordinatorOf members k]? = some q ∧ getClusterRank q = k := by
  have hmem : k ∈ clustersOf members := by
    have hranks : k ∈ (Server.tablesSpec members).clusterRanks := by
      rw [show _ = List.range count from h]
      exact List.mem_range.mpr hk
    exact List.mem_eraseDups.mp hranks
  have hget : (members.map getClusterRank)[coordinatorOf members k]? = some k := by
    have hlt := List.idxOf_lt_length_of_mem hmem
    exact (List.getElem?_eq_getElem hlt).trans (congrArg some (List.getElem_idxOf hlt))
  rw [List.getElem?_map] at hget
  exact Option.map_eq_some_iff.mp hget

/-- Two clusters do not share a coordinator. -/
theorem coordinatorOf_inj (h : SpansInOrder members count) {i j : Nat} (hi : i < count)
    (hj : j < count) (heq : coordinatorOf members i = coordinatorOf members j) : i = j :=
  coordinators_inj (getElem?_coordinators_of_spans h hi)
    (heq ▸ getElem?_coordinators_of_spans h hj)

/-- The cluster of a member is one of them. -/
theorem cluster_lt_of_mem (h : SpansInOrder members count) {q : Pid} (hq : q ∈ members) :
    getClusterRank q < count := by
  have hmem : getClusterRank q ∈ (Server.tablesSpec members).clusterRanks :=
    List.mem_eraseDups.mpr (List.mem_map_of_mem hq)
  rw [show _ = List.range count from h] at hmem
  exact List.mem_range.mp hmem

/-- The actions between the two barriers of the library. -/
theorem wideArea_action {clusterCount n : Nat} {t : Tables} {a : BarrierAction}
    (ha : a ∈ wideAreaBarrier clusterCount t n rank) : ∀ second, a ≠ enter second ∧ a ≠ leave second := by
  intro second
  unfold wideAreaBarrier at ha
  split at ha
  · rcases List.mem_append.mp ha with ha | ha <;> obtain ⟨i, _, rfl⟩ := List.mem_map.mp ha <;>
      exact ⟨nofun, nofun⟩
  · obtain ⟨i, _, ha⟩ := List.mem_flatMap.mp ha
    split at ha
    · rcases List.mem_cons.mp ha with rfl | ha
      · exact ⟨nofun, nofun⟩
      · rw [List.mem_singleton.mp ha]
        exact ⟨nofun, nofun⟩
    · cases ha

/-- The program of a member on a communicator that spans all clusters. -/
def memberProgram (members : List Pid) (count : Nat) (q : Pid) : List BarrierAction :=
  globalBarrier count (Server.tablesSpec members) count (members.idxOf q)

/-- Its part over the wide area. -/
def memberMessages (members : List Pid) (count : Nat) (q : Pid) : List BarrierAction :=
  wideAreaBarrier count (Server.tablesSpec members) count (members.idxOf q)

theorem memberProgram_eq (members : List Pid) (count : Nat) (q : Pid) :
    memberProgram members count q =
      [enter false, leave false] ++ memberMessages members count q ++ [enter true, leave true] :=
  rfl

theorem mem_of_count_eq_one {a : BarrierAction} {l : List BarrierAction} (h : l.count a = 1) :
    a ∈ l :=
  List.count_pos_iff.mp (by rw [h]; exact Nat.one_pos)

/-- The barriers of the library are entered and left once each. -/
theorem count_local (members : List Pid) (count : Nat) (q : Pid) (second : Bool) :
    (memberProgram members count q).count (enter second) = 1 ∧
      (memberProgram members count q).count (leave second) = 1 := by
  have hnot : ∀ a, a = enter second ∨ a = leave second → (memberMessages members count q).count a = 0 := by
    intro a ha
    refine List.count_eq_zero_of_not_mem fun hmem => ?_
    rcases ha with rfl | rfl
    · exact (wideArea_action hmem second).1 rfl
    · exact (wideArea_action hmem second).2 rfl
  rw [memberProgram_eq]
  simp only [List.count_append, hnot _ (Or.inl rfl), hnot _ (Or.inr rfl)]
  cases second <;> exact ⟨by decide, by decide⟩

/-- A message is sent or received once if that happens once over the wide area. -/
theorem count_message {q : Pid} {a : BarrierAction}
    (ha : (memberMessages members count q).count a = 1) :
    (memberProgram members count q).count a = 1 := by
  have hmem : a ∈ memberMessages members count q := mem_of_count_eq_one ha
  have hne := wideArea_action hmem
  rw [memberProgram_eq, List.count_append, List.count_append, ha]
  simp [(hne false).1.symm, (hne false).2.symm, (hne true).1.symm, (hne true).2.symm]

variable {entered returned : Nat} {left : List BarrierAction} {q : Pid}

/-- A message comes after the first barrier of the library. -/
theorem performed_le_leave (h : Runs (memberProgram members count q) entered returned left)
    {a : BarrierAction} (ha : (memberMessages members count q).count a = 1) :
    performed (memberProgram members count q) entered left a ≤
      performed (memberProgram members count q) entered left (leave false) := by
  obtain ⟨before, after, hsplit⟩ := List.append_of_mem (mem_of_count_eq_one ha)
  refine performed_le_of_before h
    (show _ = ([enter false, leave false] ++ before) ++ a :: (after ++ [enter true, leave true]) from ?_)
    (count_message ha) (count_local members count q false).2 ?_
  · simp [memberProgram_eq, hsplit]
  · intro hmem
    rcases List.mem_append.mp hmem with hmem | hmem
    · have hin : leave false ∈ memberMessages members count q := by
        rw [hsplit]
        simp [hmem]
      exact (wideArea_action hin false).2 rfl
    · simp at hmem

/-- A message comes before the second barrier of the library. -/
theorem performed_enter_le (h : Runs (memberProgram members count q) entered returned left)
    {a : BarrierAction} (ha : (memberMessages members count q).count a = 1) :
    performed (memberProgram members count q) entered left (enter true) ≤
      performed (memberProgram members count q) entered left a := by
  have hmem : a ∈ memberMessages members count q := mem_of_count_eq_one ha
  have hne := (wideArea_action hmem true).2
  refine performed_le_of_before h
    (show _ = ([enter false, leave false] ++ memberMessages members count q) ++ enter true :: [leave true]
      from ?_)
    (count_local members count q true).1 (count_message ha) (by simpa using hne)
  simp [memberProgram_eq]

/-- The first barrier of the library comes before the second. -/
theorem performed_second_le (h : Runs (memberProgram members count q) entered returned left) :
    performed (memberProgram members count q) entered left (enter true) ≤
      performed (memberProgram members count q) entered left (enter false) := by
  refine performed_le_of_before h
    (show _ = ([enter false, leave false] ++ memberMessages members count q) ++ enter true :: [leave true]
      from ?_)
    (count_local members count q true).1 (count_local members count q false).1 (by simp)
  simp [memberProgram_eq]

theorem performed_enter_le_leave (h : Runs (memberProgram members count q) entered returned left) :
    performed (memberProgram members count q) entered left (enter true) ≤
      performed (memberProgram members count q) entered left (leave false) := by
  refine performed_le_of_before h
    (show _ = ([enter false, leave false] ++ memberMessages members count q) ++ enter true :: [leave true]
      from ?_)
    (count_local members count q true).1 (count_local members count q false).2 (by simp)
  simp [memberProgram_eq]

/-- Before a process leaves a barrier of the library it has entered it. -/
theorem leaves_lt_enters {second : Bool}
    (h : Runs (memberProgram members count q) entered returned (leave second :: left)) :
    performed (memberProgram members count q) entered (leave second :: left) (leave false) +
        performed (memberProgram members count q) entered (leave second :: left) (leave true) <
      performed (memberProgram members count q) entered (leave second :: left) (enter false) +
        performed (memberProgram members count q) entered (leave second :: left) (enter true) := by
  have hpos := h.entered_pos
  have hnot : ∀ a second, a = enter second ∨ a = leave second → a ∉ memberMessages members count q := by
    rintro a second (rfl | rfl) hmem
    · exact (wideArea_action hmem second).1 rfl
    · exact (wideArea_action hmem second).2 rfl
  have hcount : ∀ a second, a = enter second ∨ a = leave second →
      (memberMessages members count q).count a = 0 := fun a second ha =>
    List.count_eq_zero_of_not_mem (hnot a second ha)
  simp only [performed, (count_local members count q _).1, (count_local members count q _).2,
    Nat.mul_one]
  cases second with
  | false =>
      have hleft : left = memberMessages members count q ++ [enter true, leave true] := by
        have hsuffix : leave false :: left <:+ [enter false] ++
            leave false :: (memberMessages members count q ++ [enter true, leave true]) :=
          h.suffix
        refine eq_of_cons_suffix hsuffix (by simp) ?_
        have := hnot (leave false) false (Or.inr rfl)
        simp [this]
      rw [hleft]
      simp [hcount (leave false) false (Or.inr rfl), hcount (leave true) true (Or.inr rfl),
        hcount (enter false) false (Or.inl rfl), hcount (enter true) true (Or.inl rfl)]
      omega
  | true =>
      have hleft : left = [] := by
        have hsuffix : leave true :: left <:+
            ([enter false, leave false] ++ memberMessages members count q ++ [enter true]) ++
              leave true :: [] := by
          simpa [memberProgram_eq] using h.suffix
        refine eq_of_cons_suffix hsuffix ?_ (by simp)
        have := hnot (leave true) true (Or.inr rfl)
        simp [this]
      rw [hleft]
      simp
      omega

/-! ### The coordinators -/

/-- The process that coordinates cluster `k`. -/
def coordinatorPid (members : List Pid) (k : Nat) : Pid := members.getD (coordinatorOf members k) 0

section Coordinators

variable (h : SpansInOrder members count) {i j k : Nat}
include h

theorem getElem?_coordinatorPid (hk : k < count) :
    members[coordinatorOf members k]? = some (coordinatorPid members k) := by
  obtain ⟨q, hq, _⟩ := exists_coordinator h hk
  rw [coordinatorPid, List.getD_eq_getElem?_getD, hq]
  rfl

theorem coordinatorPid_mem (hk : k < count) : coordinatorPid members k ∈ members :=
  List.mem_of_getElem? (getElem?_coordinatorPid h hk)

theorem cluster_coordinatorPid (hk : k < count) : getClusterRank (coordinatorPid members k) = k := by
  obtain ⟨q, hq, hcluster⟩ := exists_coordinator h hk
  rwa [Option.some.inj ((getElem?_coordinatorPid h hk).symm.trans hq)]

theorem coordinatorPid_inj (hi : i < count) (hj : j < count) :
    coordinatorPid members i = coordinatorPid members j ↔ i = j := by
  constructor
  · intro heq
    rw [← cluster_coordinatorPid h hi, heq, cluster_coordinatorPid h hj]
  · rintro rfl
    rfl

theorem idxOf_coordinatorPid (hnodup : members.Nodup) (hk : k < count) :
    members.idxOf (coordinatorPid members k) = coordinatorOf members k := by
  obtain ⟨hlt, hget⟩ := List.getElem?_eq_some_iff.mp (getElem?_coordinatorPid h hk)
  rw [← hget, hnodup.idxOf_getElem _ hlt]

/-- What the first coordinator does. -/
theorem memberMessages_first (hnodup : members.Nodup) (hcount : 0 < count) :
    memberMessages members count (coordinatorPid members 0) =
      (fromOne count).map receive ++ (List.range count).map bcast := by
  rw [memberMessages, wideAreaBarrier, idxOf_coordinatorPid h hnodup hcount,
    if_pos (getElem?_coordinators_of_spans h hcount)]

/-- What every other coordinator does. -/
theorem memberMessages_other (hnodup : members.Nodup) (hpos : 0 < j) (hj : j < count) :
    memberMessages members count (coordinatorPid members j) = [send, await] := by
  have hother : ∀ i < count, (Server.tablesSpec members).coordinators[i]? =
      some (coordinatorOf members j) ↔ i = j := by
    intro i hi
    rw [getElem?_coordinators_of_spans h hi, Option.some.injEq]
    exact ⟨coordinatorOf_inj h hi hj, fun heq => by rw [heq]⟩
  rw [memberMessages, wideAreaBarrier, idxOf_coordinatorPid h hnodup hj,
    if_neg (fun hfirst => Nat.ne_of_lt hpos ((hother 0 (Nat.lt_trans hpos hj)).mp hfirst)),
    fromOne, List.flatMap_map, ProcessNetwork.flatMap_range_single (j - 1)]
  · rw [if_pos (by omega), if_pos ((hother _ (by omega)).mpr (by omega))]
  · intro i hi hne
    exact if_neg fun heq => hne (by have := (hother _ (by omega)).mp heq; omega)

/-- Who does what. -/
theorem message_cases (hcount : 0 < count) (hq : q ∈ members)
    {a : BarrierAction} (ha : a ∈ memberProgram members count q) :
    (∃ second, a = enter second ∨ a = leave second) ∨
      (q = coordinatorPid members 0 ∧
        ((∃ i, 0 < i ∧ i < count ∧ a = receive i) ∨ ∃ i < count, a = bcast i)) ∨
      ∃ j, 0 < j ∧ j < count ∧ q = coordinatorPid members j ∧ (a = send ∨ a = await) := by
  have hself : ∀ j < count, members.idxOf q = coordinatorOf members j → q = coordinatorPid members j := by
    intro j hj heq
    have hlt := List.idxOf_lt_length_of_mem hq
    have hget := List.getElem?_eq_getElem hlt
    rw [List.getElem_idxOf hlt, heq, getElem?_coordinatorPid h hj] at hget
    exact (Option.some.inj hget).symm
  rw [memberProgram_eq, List.mem_append, List.mem_append] at ha
  rcases ha with (ha | ha) | ha
  · simp only [List.mem_cons, List.not_mem_nil, or_false] at ha
    exact Or.inl ⟨false, ha⟩
  · right
    rw [memberMessages, wideAreaBarrier] at ha
    split at ha
    · rename_i hfirst
      rw [getElem?_coordinators_of_spans h hcount, Option.some.injEq] at hfirst
      refine Or.inl ⟨hself 0 hcount hfirst.symm, ?_⟩
      rcases List.mem_append.mp ha with ha | ha <;> obtain ⟨i, hi, rfl⟩ := List.mem_map.mp ha
      · obtain ⟨i', hi', rfl⟩ := List.mem_map.mp hi
        have hlt := List.mem_range.mp hi'
        exact Or.inl ⟨i' + 1, Nat.succ_pos i', by omega, rfl⟩
      · exact Or.inr ⟨i, List.mem_range.mp hi, rfl⟩
    · obtain ⟨i, hi, ha⟩ := List.mem_flatMap.mp ha
      obtain ⟨i', hi', rfl⟩ := List.mem_map.mp hi
      have hlt : i' + 1 < count := by have := List.mem_range.mp hi'; omega
      split at ha
      · rename_i hcoordinator
        rw [getElem?_coordinators_of_spans h hlt, Option.some.injEq] at hcoordinator
        refine Or.inr ⟨i' + 1, Nat.succ_pos i', hlt, hself _ hlt hcoordinator.symm, ?_⟩
        simpa using ha
      · cases ha
  · simp only [List.mem_cons, List.not_mem_nil, or_false] at ha
    exact Or.inl ⟨true, ha⟩

/-- Every message of the first coordinator is there once. -/
theorem count_first (hnodup : members.Nodup) (hpos : 0 < j) (hj : j < count) :
    (memberMessages members count (coordinatorPid members 0)).count (receive j) = 1 ∧
      (memberMessages members count (coordinatorPid members 0)).count (bcast j) = 1 := by
  rw [memberMessages_first h hnodup (Nat.lt_trans hpos hj)]
  have hreceive : ((fromOne count).map receive).Nodup := by
    refine List.Nodup.map (fun a b heq => by cases heq; rfl) ?_
    exact List.nodup_range.map fun a b heq => Nat.succ.inj heq
  have hbcast : ((List.range count).map bcast).Nodup :=
    List.nodup_range.map fun a b heq => by cases heq; rfl
  have hmem : receive j ∈ (fromOne count).map receive :=
    List.mem_map_of_mem (List.mem_map.mpr ⟨j - 1, List.mem_range.mpr (by omega), by omega⟩)
  have hmem' : bcast j ∈ (List.range count).map bcast :=
    List.mem_map_of_mem (List.mem_range.mpr hj)
  rw [List.count_append, List.count_append, List.count_eq_one_of_mem hreceive hmem,
    List.count_eq_one_of_mem hbcast hmem', List.count_eq_zero_of_not_mem (by simp),
    List.count_eq_zero_of_not_mem (by simp)]
  exact ⟨rfl, rfl⟩

/-- The first coordinator hears from all before it answers anybody. -/
theorem performed_bcast_le (hnodup : members.Nodup) (hi : 0 < i) (hi' : i < count) (hj : 0 < j)
    (hj' : j < count)
    (hruns : Runs (memberProgram members count (coordinatorPid members 0)) entered returned left) :
    performed (memberProgram members count (coordinatorPid members 0)) entered left (bcast i) ≤
      performed (memberProgram members count (coordinatorPid members 0)) entered left
        (receive j) := by
  have hmem : bcast i ∈ (List.range count).map bcast :=
    List.mem_map_of_mem (List.mem_range.mpr hi')
  obtain ⟨before, after, hsplit⟩ := List.append_of_mem hmem
  refine performed_le_of_before hruns
    (show _ = ([enter false, leave false] ++ (fromOne count).map receive ++ before) ++
      bcast i :: (after ++ [enter true, leave true]) from ?_)
    (count_message (count_first h hnodup hi hi').2) (count_message (count_first h hnodup hj hj').1) ?_
  · rw [memberProgram_eq, memberMessages_first h hnodup (Nat.lt_trans hi hi'), hsplit]
    simp
  · intro hreceive
    rcases List.mem_append.mp hreceive with hreceive | hreceive
    · have hin : receive j ∈ (List.range count).map bcast := by
        rw [hsplit]
        simp [hreceive]
      simp at hin
    · simp at hreceive

/-- So is every message of another coordinator. -/
theorem count_other (hnodup : members.Nodup) (hpos : 0 < j) (hj : j < count) :
    (memberMessages members count (coordinatorPid members j)).count send = 1 ∧
      (memberMessages members count (coordinatorPid members j)).count await = 1 := by
  rw [memberMessages_other h hnodup hpos hj]
  exact ⟨rfl, rfl⟩

end Coordinators

end Programs

end EsalsaMpi
