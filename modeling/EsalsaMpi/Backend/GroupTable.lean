import EsalsaMpi.Backend.GroupUnion
import EsalsaMpi.System

/-!
# The table of groups

A process enters the groups it makes in a table, in which it finds them by their handle.
All groups without members are one object, `EMPI_GROUP_EMPTY`: a constructor whose result is
empty gets this object and writes a size and a rank to it like to any other.  The size is
always zero.  The rank is that of the process in its communicator when the group is made of
`EMPI_COMM_NULL`, where it is zero, and from then on the shared empty group claims that the
process is a member.

`init_groups` does not set the handle of `EMPI_GROUP_EMPTY`, which is what has been in the
memory before.  This apart, the table is sound in every run in which no group is made of
`EMPI_COMM_NULL`, no range wraps and the sizes of united groups have a sum that is an `int`
(`sound_iff_of_run`).
-/

namespace EsalsaMpi

namespace Groups

/-- An entry of `groups`: the object of a group. -/
structure Entry where
  handle : Int
  rank : Int
  members : List Pid
deriving DecidableEq, Repr

/-- A group as the functions on groups see it: they do not read the handle. -/
def Entry.toGroup (e : Entry) : Group := ⟨e.handle.toNat, e.rank, e.members⟩

/-- `groups` and `next_group`. -/
structure GroupTable where
  nextGroup : Nat
  groups : Nat → Option Entry

namespace GroupTable

/-- `init_groups`, when `malloc` returns memory with `left` in the place of the handle. -/
def init (left : Int) : GroupTable where
  nextGroup := 2
  groups := fun h => if h = empiGroupEmpty then some ⟨left, -1, []⟩ else none

/-- `handle_to_group`. -/
def handleToGroup (t : GroupTable) (handle : Int) : Option Entry :=
  if handle < 0 ∨ (maxGroups : Int) ≤ handle then none else t.groups handle.toNat

/-- The result of a constructor in the table, and its handle: a group without members is
written to the shared one. -/
def store (t : GroupTable) (res : Group) : GroupTable × Option Int :=
  if res.members = [] then
    ({ t with
        groups := Function.update t.groups empiGroupEmpty
          ((t.groups empiGroupEmpty).map fun e => { e with rank := res.rank, members := [] }) },
      (t.groups empiGroupEmpty).map (·.handle))
  else
    ({ nextGroup := t.nextGroup + 1
       groups := Function.update t.groups t.nextGroup
         (some ⟨t.nextGroup, res.rank, res.members⟩) },
      some t.nextGroup)

/-- `delete_group` on a group that has just been made with room for `members`.  Its place in
the table is not used again. -/
def discard (t : GroupTable) (members : Nat) : GroupTable :=
  if members = 0 ∨ maxGroups ≤ t.nextGroup then t else { t with nextGroup := t.nextGroup + 1 }

end GroupTable

/-- `group_comm_group`, whose communicator has a size that is an `int`. -/
def groupCommGroup (nextGroup : Nat) (c : Communicator) : Outcome Group :=
  let size := Int32.ofNat c.globalSize
  if size < 0 then
    .error empiErrIntern
  else
    (createGroup nextGroup size.toInt.toNat).andThen fun handle =>
      .ok ⟨handle, c.globalRank, c.tables.members.take size.toInt.toNat⟩

/-- A call of the application, with the handles and arrays it passes. -/
inductive Call where
  | commGroup (comm : Int)
  | incl (group : Int) (ranks : List Int)
  | rangeIncl (group : Int) (ranges : List Range)
  | union (group1 group2 : Int)

/-- `handle_to_communicator`. -/
def handleToCommunicator (p : Process) (handle : Int) : Option Communicator :=
  if handle < 0 ∨ (maxCommunicators : Int) ≤ handle then none else p.comms handle.toNat

/-- The table after a constructor and the handle that the application gets, if the call
succeeds; `none` after a read outside of the members. -/
def conclude (t : GroupTable) (failed : GroupTable) : Outcome Group →
    Option (GroupTable × Option Int)
  | .ok res => some (t.store res)
  | .error _ => some (failed, none)
  | .outOfBounds => none

/-- A call at the process `p`. -/
def Call.perform (p : Process) (t : GroupTable) : Call → Option (GroupTable × Option Int)
  | .commGroup comm =>
    match handleToCommunicator p comm with
    | none => some (t, none)
    | some c => conclude t t (groupCommGroup t.nextGroup c)
  | .incl group ranks =>
    match t.handleToGroup group with
    | none => some (t, none)
    | some g =>
      conclude t (t.discard ranks.length) (groupIncl p.pid t.nextGroup g.toGroup ranks)
  | .rangeIncl group ranges =>
    match t.handleToGroup group with
    | none => some (t, none)
    | some g =>
      if g.members.length = 0 then
        -- the shared group is returned as it is
        some (t, (t.groups empiGroupEmpty).map (·.handle))
      else
        conclude t t (groupRangeIncl p.pid t.nextGroup g.toGroup ranges)
  | .union group1 group2 =>
    match t.handleToGroup group1, t.handleToGroup group2 with
    | some in1, some in2 =>
      conclude t t (groupUnion p.pid t.nextGroup in1.toGroup in2.toGroup)
    | _, _ => some (t, none)

/-- A call that the application may make: the ranks are distinct. -/
def Call.Legal : Call → Prop
  | .incl _ ranks => ranks.Nodup
  | .rangeIncl _ ranges => (expansion ranges).Nodup
  | _ => True

/-- `EMPI_COMM_NULL`. -/
def empiCommNull : Int := 2

/-- A call that keeps the table sound: it does not make a group of `EMPI_COMM_NULL`, no
range that wraps has an effect, and the sizes have a sum that is an `int`. -/
def Call.Safe (t : GroupTable) : Call → Prop
  | .commGroup comm => comm ≠ empiCommNull
  | .incl _ _ => True
  | .rangeIncl group ranges =>
    ∀ g, t.handleToGroup group = some g → g.members ≠ [] →
      WrapsUnseen g.members.length g.members.length ranges
  | .union group1 group2 =>
    ∀ in1 in2, t.handleToGroup group1 = some in1 → t.handleToGroup group2 = some in2 →
      SizesFit in1.toGroup in2.toGroup

/-- A run of all processes, and the table of groups of one of them. -/
structure GroupRun where
  system : System
  table : GroupTable

variable (cfg : Server.Config) (order : Server.HashOrder) (pid : Pid)

/-- The steps of a run with the calls that are `allowed`: the communicators change, or the
process makes a call.  After a read outside of the members nothing is known of the table. -/
inductive Step (allowed : GroupTable → Call → Prop) : GroupRun → GroupRun → Prop where
  | system {s s' : System} {t : GroupTable} (h : System.Step cfg order s s') :
      Step allowed ⟨s, t⟩ ⟨s', t⟩
  | call {s : System} {t : GroupTable} {p : Process} (call : Call)
      {result : GroupTable × Option Int} (hp : s.processes pid = some p) (hlegal : call.Legal)
      (hallowed : allowed t call) (hresult : call.perform p t = some result) :
      Step allowed ⟨s, t⟩ ⟨s, result.1⟩
  | undefined {s : System} {t : GroupTable} {p : Process} (call : Call) (t' : GroupTable)
      (hp : s.processes pid = some p) (hlegal : call.Legal) (hallowed : allowed t call)
      (hundefined : call.perform p t = none) : Step allowed ⟨s, t⟩ ⟨s, t'⟩

/-- The start of a run, with `left` in the memory of `EMPI_GROUP_EMPTY`. -/
def IsStart (left : Int) (r : GroupRun) : Prop :=
  ∃ server, Server.initCommWorld cfg = some server ∧
    r = ⟨System.start cfg server, GroupTable.init left⟩

/-- **A sound table**: the members of a group are distinct, its rank is that of the process
or -1, every group has its handle, and `EMPI_GROUP_EMPTY` has no members and no rank. -/
structure GroupTable.Sound (t : GroupTable) : Prop where
  distinct : ∀ h g, t.groups h = some g → g.members.Nodup
  outside : ∀ h g, t.groups h = some g → (g.rank = -1 ↔ pid ∉ g.members)
  inside : ∀ h g, t.groups h = some g → pid ∈ g.members →
    0 ≤ g.rank ∧ g.members[g.rank.toNat]? = some pid
  handle : ∀ h g, t.groups h = some g → g.handle = h
  empty : ∃ g, t.groups empiGroupEmpty = some g ∧ g.members.length = 0 ∧ g.rank = -1

/-! ### What a process knows of its communicators -/

/-- The members of a communicator are distinct, and the process has its rank there. -/
structure Ranked (pid : Pid) (c : Communicator) : Prop where
  nodup : c.tables.members.Nodup
  size : c.globalSize = c.tables.members.length
  size_lt : c.tables.members.length < 2 ^ 32
  rank : c.tables.members[c.globalRank]? = some pid

variable {cfg order pid}

/-- Only the start enters communicators below 3. -/
theorem comms_addCommunicator {p p' : Process} {handle : Int} {c : Communicator}
    (h : p.addCommunicator handle false c = some p') {i : Nat} (hi : i < 3) :
    p'.comms i = p.comms i := by
  unfold Process.addCommunicator at h
  split at h
  · cases h
  · split at h
    · cases h
    · rename_i hbounds hreserved
      split at h
      · cases h
      · cases h
        have hlarge : ¬ handle < 3 := fun hlt => hreserved ⟨rfl, hlt⟩
        exact if_neg (by omega)

theorem comms_finish {op : Collective} {replies : List Server.Reply} {p p' : Process}
    {c : Communicator} (h : op.finish replies p c = some p') {i : Nat} (hi : i < 3) :
    p'.comms i = p.comms i := by
  unfold Collective.finish at h
  split at h
  · unfold Process.finishSplit at h
    split at h
    · cases h
      rfl
    · exact comms_addCommunicator h hi
  · unfold Process.finishCreate at h
    split at h
    · cases h
      rfl
    · obtain ⟨comm, _, h⟩ := Option.bind_eq_some_iff.mp h
      cases comm with
      | none =>
          cases h
          rfl
      | some comm => exact comms_addCommunicator h hi
  · exact comms_addCommunicator h hi
  · cases h

/-- `COMM_SELF` is as the start has made it. -/
theorem commSelf_of_reachable {s : System} (h : System.Reachable cfg order s) {p : Process}
    (hp : s.processes pid = some p) {c : Communicator} (hc : p.comms 1 = some c) :
    c.tables.members = [pid] ∧ c.globalSize = 1 ∧ c.globalRank = 0 := by
  obtain ⟨server, _, hrun⟩ := h
  induction hrun generalizing p c with
  | refl =>
      obtain ⟨happ, hp⟩ := System.start_processes hp
      simp [initCommunicators, Process.addCommunicator, maxCommunicators] at hp
      subst hp
      cases hc
      exact ⟨by simp [selfCommunicator, setPid_rowOf happ], rfl, rfl⟩
  | tail _ hstep ih =>
      cases hstep with
      | @collective n op sc sent arrived hlive hlegal hsent harrived =>
          by_cases hmember : pid ∈ sc.tables.members
          · simp only [System.after, if_pos hmember] at hp
            obtain ⟨p₀, hp₀, hp⟩ := Option.bind_eq_some_iff.mp hp
            obtain ⟨c₀, _, hp⟩ := Option.bind_eq_some_iff.mp hp
            rw [comms_finish hp (by decide)] at hc
            exact ih hp₀ hc
          · simp only [System.after, if_neg hmember] at hp
            exact ih hp hc

/-- An application process is not in the last of 256 clusters. -/
theorem length_lt_of_valid {members : List Pid} (h : cfg.Valid members) :
    members.length < 2 ^ 32 := by
  have hbound : ∀ e ∈ members.map fun q => (q.toNat : Int),
      0 ≤ e ∧ e < ((255 * 2 ^ 24 : Nat) : Int) := by
    intro e he
    obtain ⟨q, hq, rfl⟩ := List.mem_map.mp he
    have hcluster := (h.application q hq).cluster_lt
    have hclusters : cfg.applicationSizes.length < 256 := cfg.clusters_lt
    rw [getClusterRank_eq, Server.Config.numberOfClusters] at hcluster
    omega
  have hnodup : (members.map fun q => (q.toNat : Int)).Nodup := by
    refine h.nodup.map fun q q' heq => UInt32.toNat_inj.mp ?_
    exact Int.ofNat_inj.mp heq
  have hle := length_le_of_nodup hbound hnodup
  rw [List.length_map] at hle
  omega

/-- **Communicators are ranked**, but for `COMM_NULL`. -/
theorem ranked_of_reachable {s : System} (h : System.Reachable cfg order s) {p : Process}
    (hp : s.processes pid = some p) {i : Nat} {c : Communicator} (hc : p.comms i = some c)
    (hnull : i ≠ 2) : Ranked pid c := by
  by_cases hself : i = 1
  · subst hself
    obtain ⟨hmembers, hsize, hrank⟩ := commSelf_of_reachable h hp hc
    constructor
    · rw [hmembers]
      exact List.nodup_singleton _
    · rw [hmembers, hsize]
      rfl
    · rw [hmembers, List.length_singleton]
      decide
    · rw [hmembers, hrank]
      rfl
  · have hinv := System.inv_of_reachable h
    obtain ⟨sc, hsc, hmem⟩ := hinv.known pid p hp i c hc hself hnull
    obtain ⟨members, hvalid, rfl⟩ := hinv.communicator i sc hsc
    obtain ⟨c', hc', hmirrors⟩ := hinv.mirror pid p hp i _ hsc hmem
    rw [hc] at hc'
    cases hc'
    have hmembers : c.tables.members = members := by
      rw [hmirrors.tables]
      rfl
    constructor
    · rw [hmembers]
      exact hvalid.nodup
    · rw [hmembers]
      exact hmirrors.globalSize
    · rw [hmembers]
      exact length_lt_of_valid hvalid
    · rw [hmembers]
      exact hmirrors.globalRank

/-! ### What the constructors make -/

/-- A group as a constructor should make it. -/
structure Proper (pid : Pid) (rank : Int) (members : List Pid) : Prop where
  nodup : members.Nodup
  size_lt : members.length < 2 ^ 31
  rank : rank = rankIn pid members

/-- The loops that look for the own rank find it. -/
theorem ownRank_eq {members : List Pid} (hnodup : members.Nodup) :
    ownRank pid members = rankIn pid members := by
  have hloop : ∀ (l : List Pid) (k : Nat) (rank : Int), l.Nodup →
      (l.zipIdx k).foldl (fun rank m => if m.1 = pid then (m.2 : Int) else rank) rank =
        if pid ∈ l then ((k + l.idxOf pid : Nat) : Int) else rank := by
    intro l
    induction l with
    | nil => exact fun _ _ _ => rfl
    | cons q l ih =>
        intro k rank hl
        obtain ⟨hq, hl⟩ := List.nodup_cons.mp hl
        rw [List.zipIdx_cons, List.foldl_cons, ih (k + 1) _ hl]
        by_cases hown : q = pid
        · subst hown
          rw [if_neg hq, if_pos rfl, if_pos List.mem_cons_self, List.idxOf_cons_self]
          rfl
        · have hmem : pid ∈ q :: l ↔ pid ∈ l := by
            rw [List.mem_cons, or_iff_right (Ne.symm hown)]
          rw [if_neg hown, List.idxOf_cons_ne l hown]
          simp only [hmem]
          rw [show k + 1 + l.idxOf pid = k + (l.idxOf pid).succ by omega]
  rw [ownRank, hloop members 0 (-1) hnodup, rankIn, Nat.zero_add]

/-- `EMPI_Comm_group` on a ranked communicator. -/
theorem proper_groupCommGroup {c : Communicator} (hc : Ranked pid c) {n : Nat} {res : Group}
    (h : groupCommGroup n c = .ok res) : Proper pid res.rank res.members := by
  have hsize := hc.size_lt
  rw [← hc.size] at hsize
  rw [groupCommGroup] at h
  by_cases hint : c.globalSize < 2 ^ 31
  · have htoInt : (Int32.ofNat c.globalSize).toInt = c.globalSize :=
      Int32.toInt_ofNat_of_lt hint
    have hneg : ¬ Int32.ofNat c.globalSize < 0 := by
      rw [Int32.lt_iff_toInt_lt, htoInt]
      exact not_lt.mpr (Int.natCast_nonneg _)
    simp only [if_neg hneg, htoInt, Int.toNat_natCast] at h
    cases hhandle : createGroup n c.globalSize with
    | ok handle =>
        rw [hhandle, Outcome.andThen] at h
        cases h
        have htake : c.tables.members.take c.globalSize = c.tables.members := by
          rw [hc.size, List.take_length]
        obtain ⟨hlt, hget⟩ := List.getElem?_eq_some_iff.mp hc.rank
        constructor
        · rw [htake]
          exact hc.nodup
        · rw [htake, ← hc.size]
          exact hint
        · simp only [htake]
          have hidx := hc.nodup.idxOf_getElem _ hlt
          rw [hget] at hidx
          rw [rankIn_of_mem (List.mem_of_getElem? hc.rank), hidx]
    | error code =>
        rw [hhandle, Outcome.andThen] at h
        cases h
    | outOfBounds =>
        rw [hhandle, Outcome.andThen] at h
        cases h
  · have hneg : Int32.ofNat c.globalSize < 0 := by
      rw [Int32.lt_iff_toInt_lt, Int32.toInt_ofNat', Int.bmod_def]
      simp only [Int32.toInt_zero, show Int32.size = 2 ^ 32 from rfl]
      split <;> omega
    simp only [if_pos hneg] at h
    cases h

/-- The loop of `group_incl` reads members only. -/
theorem inclMembers_cases (members : List Pid) (ranks : List Int) :
    (∃ code, inclMembers members ranks = .error code) ∨
      (∀ e ∈ ranks, 0 ≤ e ∧ e < members.length) ∧
        inclMembers members ranks = .ok (membersAt members ranks) := by
  by_cases hall : ∀ e ∈ ranks, 0 ≤ e ∧ e < members.length
  · exact Or.inr ⟨hall, inclMembers_eq hall⟩
  · left
    induction ranks with
    | nil => exact absurd (fun e he => by cases he) hall
    | cons e ranks ih =>
        rw [inclMembers]
        by_cases he : e < 0 ∨ (members.length : Int) ≤ e
        · exact ⟨_, if_pos he⟩
        · obtain ⟨pid, hpid⟩ := @memberAt_of_lt members e (by omega) (by omega)
          have hrest : ¬ ∀ e ∈ ranks, 0 ≤ e ∧ e < members.length := by
            intro hrest
            refine hall fun e' he' => ?_
            rcases List.mem_cons.mp he' with rfl | he'
            · omega
            · exact hrest e' he'
          obtain ⟨code, hcode⟩ := ih hrest
          rw [if_neg he]
          simp only [hpid, hcode]
          exact ⟨code, rfl⟩

theorem memberAt_eq_some {members : List Pid} {e : Int} {q : Pid}
    (h : memberAt members e = some q) : 0 ≤ e ∧ members[e.toNat]? = some q := by
  rw [memberAt] at h
  split at h
  · cases h
  · exact ⟨by omega, h⟩

/-- The members with distinct ranks are distinct, and no more than there are. -/
theorem nodup_membersAt {members : List Pid} (hmembers : members.Nodup) {ranks : List Int}
    (hin : ∀ e ∈ ranks, 0 ≤ e ∧ e < members.length) (hranks : ranks.Nodup) :
    (membersAt members ranks).Nodup ∧
      (membersAt members ranks).length ≤ members.length := by
  refine ⟨?_, ?_⟩
  · refine List.Nodup.filterMap ?_ hranks
    intro e e' q he he'
    obtain ⟨hpos, hget⟩ := memberAt_eq_some he
    obtain ⟨hpos', hget'⟩ := memberAt_eq_some he'
    have heq := (List.getElem?_inj (List.getElem?_eq_some_iff.mp hget).1 hmembers).mp
      (hget.trans hget'.symm)
    omega
  · rw [length_membersAt hin]
    exact length_le_of_nodup hin hranks

/-- A group of members with distinct ranks. -/
theorem proper_membersAt {g : Group} (hg : Proper pid g.rank g.members) {ranks : List Int}
    (hin : ∀ e ∈ ranks, 0 ≤ e ∧ e < g.members.length) (hranks : ranks.Nodup) :
    Proper pid (ownRank pid (membersAt g.members ranks)) (membersAt g.members ranks) := by
  obtain ⟨hnodup, hlength⟩ := nodup_membersAt hg.nodup hin hranks
  exact ⟨hnodup, hlength.trans_lt hg.size_lt, ownRank_eq hnodup⟩

/-- `group_incl` with distinct ranks. -/
theorem proper_groupIncl {g : Group} (hg : Proper pid g.rank g.members) {ranks : List Int}
    (hranks : ranks.Nodup) {n : Nat} {res : Group} (h : groupIncl pid n g ranks = .ok res) :
    Proper pid res.rank res.members := by
  rw [groupIncl] at h
  cases hhandle : createGroup n ranks.length with
  | ok handle =>
      rw [hhandle, Outcome.andThen] at h
      rcases inclMembers_cases g.members ranks with ⟨code, hcode⟩ | ⟨hin, hok⟩
      · rw [hcode] at h
        cases h
      · rw [hok] at h
        cases h
        exact proper_membersAt hg hin hranks
  | error code =>
      rw [hhandle, Outcome.andThen] at h
      cases h
  | outOfBounds =>
      rw [hhandle, Outcome.andThen] at h
      cases h

/-- `group_range_incl` with distinct ranks, if no range that wraps has an effect. -/
theorem proper_groupRangeIncl {g : Group} (hg : Proper pid g.rank g.members)
    (hne : g.members ≠ []) {ranges : List Range} (hranges : (expansion ranges).Nodup)
    (hunseen : WrapsUnseen g.members.length g.members.length ranges) {n : Nat} :
    (∃ code, groupRangeIncl pid n g ranges = .error code) ∨
      ∃ res, groupRangeIncl pid n g ranges = .ok res ∧ Proper pid res.rank res.members := by
  have hrun : groupRangeIncl pid n g ranges =
      (getRanges g.members [] ranges).andThen fun tmp =>
        (createGroup n tmp.length).andThen fun handle => .ok ⟨handle, ownRank pid tmp, tmp⟩ :=
    if_neg fun hnil => hne (List.eq_nil_of_length_eq_zero hnil)
  rw [hrun]
  rcases getRanges_cases hg.size_lt ranges [] g.members.length rfl with
    ⟨_, _, code, hcode⟩ | ⟨_, hproper, hok⟩ | ⟨hseen, _⟩
  · exact Or.inl ⟨code, by rw [hcode]; rfl⟩
  · rw [hok, List.nil_append, Outcome.andThen]
    cases hhandle : createGroup n (membersAt g.members (expansion ranges)).length with
    | ok handle =>
        refine Or.inr ⟨_, rfl, proper_membersAt hg (fun e he => ?_) hranges⟩
        refine mem_expansion (fun r hr => ?_) he
        by_contra hnot
        exact hproper (Or.inl ⟨r, hr, hnot⟩)
    | error code => exact Or.inl ⟨code, rfl⟩
    | outOfBounds =>
        rw [createGroup] at hhandle
        split at hhandle
        · cases hhandle
        · split at hhandle
          · cases hhandle
          · cases hhandle
  · exact absurd hunseen hseen

/-- `group_union`, if the sum of the sizes is an `int`. -/
theorem proper_groupUnion {in1 in2 : Group} (h1 : Proper pid in1.rank in1.members)
    (h2 : Proper pid in2.rank in2.members) (hfit : SizesFit in1 in2) {n : Nat} {res : Group}
    (h : groupUnion pid n in1 in2 = .ok res) : Proper pid res.rank res.members := by
  obtain ⟨hmembers, hrank, _⟩ := eq_of_groupUnion h2.nodup hfit h
  have hranks : RanksFit pid in1 in2 := by
    rw [RanksFit]
    split
    · rename_i hnone
      rw [h1.rank] at hnone
      refine ⟨rankIn_eq_neg_one_iff.mp hnone, fun hnone' => ?_⟩
      rw [h2.rank] at hnone'
      exact rankIn_eq_neg_one_iff.mp hnone'
    · rename_i hsome
      rw [h1.rank, rankIn_eq_neg_one_iff, not_not] at hsome
      rw [h1.rank, rankIn_of_mem hsome, rankIn_of_mem (mem_unionMembers.mpr (Or.inl hsome)),
        unionMembers, List.idxOf_append_of_mem hsome]
  constructor
  · rw [hmembers]
    exact nodup_unionMembers h1.nodup h2.nodup
  · rw [hmembers, unionMembers, List.length_append]
    have hle := List.length_filter_le (fun q => decide (q ∉ in1.members)) in2.members
    have hsum : in1.members.length + in2.members.length < 2 ^ 31 := hfit
    omega
  · rw [hrank, hmembers]
    exact (unionRank_eq_iff h2.nodup).mpr hranks

/-! ### The table -/

/-- **The invariant of the table**: all groups are proper and have their handles, but for
that of the shared group, which is what has been left in the memory. -/
structure GroupTable.Inv (pid : Pid) (left : Int) (t : GroupTable) : Prop where
  proper : ∀ h g, t.groups h = some g → Proper pid g.rank g.members
  handle : ∀ h g, t.groups h = some g → h ≠ empiGroupEmpty → g.handle = h
  empty : ∃ g, t.groups empiGroupEmpty = some g ∧ g.members = [] ∧ g.handle = left
  next : empiGroupEmpty < t.nextGroup

variable {left : Int} {t : GroupTable}

theorem inv_init (pid : Pid) (left : Int) : (GroupTable.init left).Inv pid left where
  proper := by
    intro h g hg
    simp only [GroupTable.init] at hg
    split at hg
    · cases hg
      exact ⟨List.nodup_nil, Nat.two_pow_pos 31, rfl⟩
    · cases hg
  handle := by
    intro h g hg hne
    simp only [GroupTable.init] at hg
    split at hg
    · rename_i heq
      exact absurd heq hne
    · cases hg
  empty := ⟨⟨left, -1, []⟩, rfl, rfl, rfl⟩
  next := show 1 < 2 by decide

theorem proper_handleToGroup (h : t.Inv pid left) {handle : Int} {g : Entry}
    (hg : t.handleToGroup handle = some g) : Proper pid g.toGroup.rank g.toGroup.members := by
  rw [GroupTable.handleToGroup] at hg
  split at hg
  · cases hg
  · exact h.proper _ g hg

/-- Entering a proper group. -/
theorem inv_store (h : t.Inv pid left) {res : Group} (hres : Proper pid res.rank res.members) :
    (t.store res).1.Inv pid left := by
  obtain ⟨e, he, hnil, hleft⟩ := h.empty
  rw [GroupTable.store]
  split
  · rename_i hempty
    rw [hempty] at hres
    constructor
    · intro i g hg
      by_cases hi : i = empiGroupEmpty
      · subst hi
        simp only [Function.update_self, he] at hg
        cases hg
        exact hres
      · simp only [Function.update_of_ne hi] at hg
        exact h.proper i g hg
    · intro i g hg hi
      simp only [Function.update_of_ne hi] at hg
      exact h.handle i g hg hi
    · refine ⟨{ e with rank := res.rank, members := [] }, ?_, rfl, hleft⟩
      simp only [Function.update_self, he]
      rfl
    · exact h.next
  · constructor
    · intro i g hg
      by_cases hi : i = t.nextGroup
      · subst hi
        simp only [Function.update_self] at hg
        cases hg
        exact hres
      · simp only [Function.update_of_ne hi] at hg
        exact h.proper i g hg
    · intro i g hg hne
      by_cases hi : i = t.nextGroup
      · subst hi
        simp only [Function.update_self] at hg
        cases hg
        rfl
      · simp only [Function.update_of_ne hi] at hg
        exact h.handle i g hg hne
    · refine ⟨e, ?_, hnil, hleft⟩
      simp only [Function.update_of_ne (Nat.ne_of_lt h.next)]
      exact he
    · exact h.next.trans (Nat.lt_succ_self _)

theorem inv_discard (h : t.Inv pid left) (n : Nat) : (t.discard n).Inv pid left := by
  rw [GroupTable.discard]
  split
  · exact h
  · exact ⟨h.proper, h.handle, h.empty, h.next.trans (Nat.lt_succ_self _)⟩

/-- What a constructor leaves, if it reads members only. -/
theorem exists_conclude {failed : GroupTable} {outcome : Outcome Group} (h : t.Inv pid left)
    (hfailed : failed.Inv pid left) (hbounds : outcome ≠ .outOfBounds)
    (hproper : ∀ res, outcome = .ok res → Proper pid res.rank res.members) :
    ∃ result, conclude t failed outcome = some result ∧ result.1.Inv pid left := by
  cases houtcome : outcome with
  | ok res => exact ⟨_, rfl, inv_store h (hproper res houtcome)⟩
  | error code => exact ⟨_, rfl, hfailed⟩
  | outOfBounds => exact absurd houtcome hbounds

theorem andThen_ne {α β : Type} {x : Outcome α} {f : α → Outcome β} (hx : x ≠ .outOfBounds)
    (hf : ∀ a, f a ≠ .outOfBounds) : x.andThen f ≠ .outOfBounds := by
  cases x with
  | ok a => exact hf a
  | error code => exact nofun
  | outOfBounds => exact absurd rfl hx

theorem createGroup_ne (n m : Nat) : createGroup n m ≠ .outOfBounds := by
  rw [createGroup]
  split
  · rintro ⟨⟩
  · split
    · rintro ⟨⟩
    · rintro ⟨⟩

/-- **A safe call** keeps the invariant, and reads members only. -/
theorem inv_perform (h : t.Inv pid left) {p : Process} (hpid : p.pid = pid)
    (hranked : ∀ i c, p.comms i = some c → i ≠ 2 → Ranked pid c) {call : Call}
    (hlegal : call.Legal) (hsafe : call.Safe t) :
    ∃ result, call.perform p t = some result ∧ result.1.Inv pid left := by
  subst hpid
  cases call with
  | commGroup comm =>
      cases hcomm : handleToCommunicator p comm with
      | none => exact ⟨(t, none), by simp only [Call.perform, hcomm], h⟩
      | some c =>
          have hc : Ranked p.pid c := by
            rw [handleToCommunicator] at hcomm
            split at hcomm
            · cases hcomm
            · refine hranked _ c hcomm fun heq => hsafe ?_
              rw [empiCommNull]
              omega
          simp only [Call.perform, hcomm]
          refine exists_conclude h h ?_ fun res hres => proper_groupCommGroup hc hres
          rw [groupCommGroup]
          split
          · exact nofun
          · exact andThen_ne (createGroup_ne _ _) fun _ => nofun
  | incl group ranks =>
      cases hg : t.handleToGroup group with
      | none => exact ⟨(t, none), by simp only [Call.perform, hg], h⟩
      | some g =>
          simp only [Call.perform, hg]
          refine exists_conclude h (inv_discard h _) ?_ fun res hres =>
            proper_groupIncl (proper_handleToGroup h hg) hlegal hres
          refine andThen_ne (createGroup_ne _ _) fun _ => andThen_ne ?_ fun _ => nofun
          rcases inclMembers_cases g.toGroup.members ranks with ⟨code, hcode⟩ | ⟨_, hok⟩
          · rw [hcode]
            exact nofun
          · rw [hok]
            exact nofun
  | rangeIncl group ranges =>
      cases hg : t.handleToGroup group with
      | none => exact ⟨(t, none), by simp only [Call.perform, hg], h⟩
      | some g =>
          simp only [Call.perform, hg]
          by_cases hempty : g.members.length = 0
          · rw [if_pos hempty]
            exact ⟨_, rfl, h⟩
          · rw [if_neg hempty]
            have hne : g.members ≠ [] := fun hnil => hempty (by rw [hnil]; rfl)
            rcases @proper_groupRangeIncl p.pid g.toGroup (proper_handleToGroup h hg) hne _ hlegal
              (hsafe g hg hne) t.nextGroup with ⟨code, hcode⟩ | ⟨res, hres, hproper⟩
            · rw [hcode]
              exact ⟨_, rfl, h⟩
            · rw [hres]
              exact ⟨_, rfl, inv_store h hproper⟩
  | union group1 group2 =>
      cases h1 : t.handleToGroup group1 with
      | none => exact ⟨(t, none), by simp only [Call.perform, h1], h⟩
      | some in1 =>
          cases h2 : t.handleToGroup group2 with
          | none => exact ⟨(t, none), by simp only [Call.perform, h1, h2], h⟩
          | some in2 =>
              simp only [Call.perform, h1, h2]
              refine exists_conclude h h (andThen_ne (createGroup_ne _ _) fun _ => nofun) ?_
              exact fun res hres => proper_groupUnion (proper_handleToGroup h h1)
                (proper_handleToGroup h h2) (hsafe in1 in2 h1 h2) hres

/-- A table that keeps the invariant is sound, if the memory held the right handle. -/
theorem sound_iff (h : t.Inv pid left) : t.Sound pid ↔ left = empiGroupEmpty := by
  obtain ⟨e, he, hnil, hleft⟩ := h.empty
  constructor
  · intro hsound
    rw [← hleft]
    exact hsound.handle _ e he
  · intro hself
    constructor
    · exact fun i g hg => (h.proper i g hg).nodup
    · intro i g hg
      rw [(h.proper i g hg).rank]
      exact rankIn_eq_neg_one_iff
    · intro i g hg hmem
      rw [(h.proper i g hg).rank, rankIn_of_mem hmem]
      have hlt := List.idxOf_lt_length_of_mem hmem
      refine ⟨Int.natCast_nonneg _, ?_⟩
      rw [Int.toNat_natCast, List.getElem?_eq_getElem hlt, List.getElem_idxOf hlt]
    · intro i g hg
      by_cases hi : i = empiGroupEmpty
      · subst hi
        rw [he] at hg
        cases hg
        rw [hleft, hself]
      · exact h.handle i g hg hi
    · refine ⟨e, he, by rw [hnil]; rfl, ?_⟩
      rw [(h.proper _ e he).rank, hnil]
      rfl

/-- The states of a run with the calls that are allowed. -/
def Reachable (cfg : Server.Config) (order : Server.HashOrder) (pid : Pid)
    (allowed : GroupTable → Call → Prop) (left : Int) (r : GroupRun) : Prop :=
  ∃ start, IsStart cfg left start ∧
    Relation.ReflTransGen (Step cfg order pid allowed) start r

/-- The system of a run is that of a run of collective operations. -/
theorem reachable_system {allowed : GroupTable → Call → Prop} {r : GroupRun}
    (h : Reachable cfg order pid allowed left r) : System.Reachable cfg order r.system := by
  obtain ⟨start, ⟨server, hserver, rfl⟩, hrun⟩ := h
  refine ⟨server, hserver, ?_⟩
  induction hrun with
  | refl => exact .refl
  | tail _ hstep ih =>
      cases hstep with
      | system h => exact ih.tail h
      | call => exact ih
      | undefined => exact ih

/-- **Runs with safe calls** keep the invariant. -/
theorem inv_of_run {r : GroupRun} (h : Reachable cfg order pid (fun t call => call.Safe t) left r) :
    r.table.Inv pid left := by
  obtain ⟨start, hstart, hrun⟩ := h
  induction hrun with
  | refl =>
      obtain ⟨server, _, rfl⟩ := hstart
      exact inv_init pid left
  | tail hrun hstep ih =>
      have hsystem := reachable_system ⟨start, hstart, hrun⟩
      cases hstep with
      | system h => exact ih
      | @call s t p call result hp hlegal hsafe hresult =>
          have hpid := ((System.inv_of_reachable hsystem).process pid p hp).1
          obtain ⟨result', hresult', hinv⟩ := inv_perform ih hpid
            (fun i c hc hi => ranked_of_reachable hsystem hp hc hi) hlegal hsafe
          rw [hresult] at hresult'
          cases hresult'
          exact hinv
      | @undefined s t p call t' hp hlegal hsafe hundefined =>
          have hpid := ((System.inv_of_reachable hsystem).process pid p hp).1
          obtain ⟨result', hresult', _⟩ := inv_perform ih hpid
            (fun i c hc hi => ranked_of_reachable hsystem hp hc hi) hlegal hsafe
          rw [hundefined] at hresult'
          cases hresult'

/-- **The table of groups.**  In every state of a run in which no group is made of
`EMPI_COMM_NULL`, no range that wraps has an effect and the sizes of united groups have a
sum that is an `int`, the table is sound if and only if the memory of `EMPI_GROUP_EMPTY`
happened to hold its handle. -/
theorem sound_iff_of_run {r : GroupRun}
    (h : Reachable cfg order pid (fun t call => call.Safe t) left r) :
    r.table.Sound pid ↔ left = empiGroupEmpty := sound_iff (inv_of_run h)

/-- The first process of `Config.pair`, when it starts. -/
def firstProcess : Process :=
  (initCommunicators [1, 1] 0 0).getD ⟨setPid 0 0, fun _ => none⟩

/-- A call of this process when it has started, with the table `t`. -/
def called (t : GroupTable) (call : Call) : GroupTable :=
  ((call.perform firstProcess t).map (·.1)).getD t

/-- A run in which this process makes its calls right after the start. -/
theorem reachable_called {allowed : GroupTable → Call → Prop} {t : GroupTable}
    (h : Reachable .pair .insertion (setPid 0 0) allowed left
      ⟨System.start .pair System.pairServer, t⟩) (call : Call) (hlegal : call.Legal)
    (hallowed : allowed t call) (hdefined : (call.perform firstProcess t).isSome) :
    Reachable .pair .insertion (setPid 0 0) allowed left
      ⟨System.start .pair System.pairServer, called t call⟩ := by
  obtain ⟨result, hresult⟩ := Option.isSome_iff_exists.mp hdefined
  obtain ⟨start, hstart, hrun⟩ := h
  have hstep : Step .pair .insertion (setPid 0 0) allowed
      ⟨System.start .pair System.pairServer, t⟩ ⟨System.start .pair System.pairServer, result.1⟩ :=
    .call call (p := firstProcess) rfl hlegal hallowed hresult
  have hcalled : called t call = result.1 := by rw [called, hresult]; rfl
  rw [hcalled]
  exact ⟨start, hstart, hrun.tail hstep⟩

theorem reachable_start (allowed : GroupTable → Call → Prop) (left : Int) :
    Reachable .pair .insertion (setPid 0 0) allowed left
      ⟨System.start .pair System.pairServer, .init left⟩ :=
  ⟨_, ⟨System.pairServer, Server.initCommWorld_eq .pair, rfl⟩, .refl⟩

/-- The group of the world, its second member, the reversal of the world and the union of the
two, on memory that held the handle 1. -/
theorem sound_of_four_calls : ∃ t,
    Reachable .pair .insertion (setPid 0 0) (fun t call => call.Safe t) 1
      ⟨System.start .pair System.pairServer, t⟩ ∧
      t.groups 5 = some ⟨5, 1, [setPid 1 0, setPid 0 0]⟩ ∧ t.Sound (setPid 0 0) := by
  have h0 := reachable_start (fun t call => call.Safe t) 1
  have h1 := reachable_called h0 (.commGroup 0) trivial (show (0 : Int) ≠ 2 by decide) (by decide)
  have h2 := reachable_called h1 (.incl 2 [1]) (show [1].Nodup by decide) trivial (by decide)
  have hworld : (called (called (.init 1) (.commGroup 0)) (.incl 2 [1])).handleToGroup 2 =
      some ⟨2, 0, [setPid 0 0, setPid 1 0]⟩ := by decide
  have hunseen : WrapsUnseen 2 2 [⟨1, 0, -1⟩] := by
    refine Or.inr (Or.inr ?_)
    rw [if_neg (by decide)]
    trivial
  have h3 := reachable_called h2 (.rangeIncl 2 [⟨1, 0, -1⟩])
    (show (expansion [⟨1, 0, -1⟩]).Nodup by decide) (by
      intro g hg _
      rw [hworld] at hg
      cases hg
      exact hunseen) (by decide)
  have hsecond : (called (called (called (.init 1) (.commGroup 0)) (.incl 2 [1]))
      (.rangeIncl 2 [⟨1, 0, -1⟩])).handleToGroup 3 = some ⟨3, -1, [setPid 1 0]⟩ := by decide
  have hreversed : (called (called (called (.init 1) (.commGroup 0)) (.incl 2 [1]))
      (.rangeIncl 2 [⟨1, 0, -1⟩])).handleToGroup 4 =
        some ⟨4, 1, [setPid 1 0, setPid 0 0]⟩ := by decide
  have h4 := reachable_called h3 (.union 3 4) trivial (by
    intro in1 in2 h1 h2
    rw [hsecond] at h1
    rw [hreversed] at h2
    cases h1
    cases h2
    exact show 1 + 2 < 2 ^ 31 by decide) (by decide)
  exact ⟨_, h4, by decide, (sound_iff_of_run h4).mpr rfl⟩

/-- **The group of `EMPI_COMM_NULL`** gives the shared empty group the rank 0, on memory that
held the handle 1 as well. -/
theorem not_sound_commNull : ∃ t,
    Reachable .pair .insertion (setPid 0 0) (fun _ _ => True) 1
      ⟨System.start .pair System.pairServer, t⟩ ∧
      t.groups empiGroupEmpty = some ⟨1, 0, []⟩ ∧ ¬ t.Sound (setPid 0 0) := by
  have h0 := reachable_start (fun _ _ => True) 1
  have h1 := reachable_called h0 (.commGroup empiCommNull) trivial trivial (by decide)
  have hentry : (called (.init 1) (.commGroup empiCommNull)).groups empiGroupEmpty =
      some ⟨1, 0, []⟩ := by decide
  refine ⟨_, h1, hentry, fun h => ?_⟩
  obtain ⟨g, hg, _, hrank⟩ := h.empty
  rw [hentry] at hg
  cases hg
  exact absurd hrank (by decide)

end Groups

end EsalsaMpi
