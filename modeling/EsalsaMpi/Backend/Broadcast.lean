import EsalsaMpi.Backend.Messaging
import EsalsaMpi.System
import Mathlib.Data.List.Perm.Subperm

/-!
# The broadcast to the coordinators

`messaging_bcast` counts through the clusters of the whole run and leaves out
the rank of its own cluster, but uses the count as an index into the tables of
the communicator.  It reaches the coordinators of the other clusters exactly
when the two numberings agree where it matters (`covers_iff`): the communicator
contains all clusters, and the caller's own cluster stands at its own rank.  What
is too long for a message is not sent at all; then there must be nobody to send
it to.
-/

namespace EsalsaMpi

open FirstOccurrence

/-- What a call of `messaging_bcast` did: the indices at which it read
`c->coordinators`, the messages it sent, and whether it went through. -/
structure Bcast where
  reads : List Nat
  sent : List DataMessage
  success : Bool
deriving DecidableEq, Repr

/-- A further message before those of `b`. -/
def Bcast.cons (i : Nat) (m : DataMessage) (b : Bcast) : Bcast :=
  { b with reads := i :: b.reads, sent := m :: b.sent }

/-- The loop of `messaging_bcast`.  It ends where a send fails, and where there
is no coordinator to read. -/
def bcastFrom (clusterRank : Nat) (send : Nat → Option DataMessage) : List Nat → Bcast
  | [] => ⟨[], [], true⟩
  | i :: rest =>
    if i = clusterRank then
      bcastFrom clusterRank send rest
    else
      match send i with
      | none => ⟨[i], [], false⟩
      | some m => (bcastFrom clusterRank send rest).cons i m

/-- The send of `messaging_bcast` for the count `i`. -/
def bcastSend {α : Type} (pk : Packing α) (pid : Pid) (buf : List α) (c : Communicator)
    (i : Nat) : Option DataMessage :=
  (c.tables.coordinators[i]?).bind fun dest =>
    doSend pk pid opcodeCollectiveBcast buf dest bcastTag c

/-- `messaging_bcast` at the process `p`, in a run with `clusterCount` clusters. -/
def messagingBcast {α : Type} (pk : Packing α) (clusterCount : Nat) (p : Process)
    (buf : List α) (c : Communicator) : Bcast :=
  bcastFrom p.clusterRank (bcastSend pk p.pid buf c) (List.range clusterCount)

/-- What a broadcast is for: one message for the coordinator of every other
cluster, none for that of the caller's own, and no reads outside the table. -/
structure Bcast.Covers (b : Bcast) (clusterRank : Nat) (c : Communicator) : Prop where
  others : ∀ (i : Nat) k dest, c.tables.clusterRanks[i]? = some k → k ≠ clusterRank →
    c.tables.coordinators[i]? = some dest →
      (b.sent.countP fun m => m.opcode == opcodeCollectiveBcast && m.dest == (dest : Int)) = 1
  own : ∀ (i : Nat) dest, c.tables.clusterRanks[i]? = some clusterRank →
    c.tables.coordinators[i]? = some dest → ∀ m ∈ b.sent, m.dest ≠ (dest : Int)
  inBounds : ∀ i ∈ b.reads, i < c.clusterCount

section Loop

variable {k : Nat} {send : Nat → Option DataMessage} {is : List Nat}

/-- The loop when every send goes through. -/
theorem bcastFrom_eq {f : Nat → DataMessage} (hsend : ∀ i ∈ is, i ≠ k → send i = some (f i)) :
    bcastFrom k send is = ⟨is.filter (· ≠ k), (is.filter (· ≠ k)).map f, true⟩ := by
  induction is with
  | nil => rfl
  | cons i is ih =>
      have hrest := ih fun j hj => hsend j (List.mem_cons_of_mem i hj)
      unfold bcastFrom
      by_cases hi : i = k
      · simp [hi, hrest]
      · simp [hi, hrest, hsend i List.mem_cons_self hi, Bcast.cons]

/-- The loop comes to every count that only sends which go through stand
before. -/
theorem bcastFrom_reaches {before : List Nat} (after : List Nat) {i : Nat} (hi : i ≠ k)
    (hbefore : ∀ j ∈ before, j ≠ k → ∃ m, send j = some m) :
    i ∈ (bcastFrom k send (before ++ i :: after)).reads ∧
      ∀ m, send i = some m → m ∈ (bcastFrom k send (before ++ i :: after)).sent := by
  induction before with
  | nil =>
      rw [List.nil_append, bcastFrom, if_neg hi]
      cases send i with
      | none => simp
      | some m => simp [Bcast.cons]
  | cons j before ih =>
      have hrest := ih fun j' hj' => hbefore j' (List.mem_cons_of_mem j hj')
      rw [List.cons_append, bcastFrom]
      by_cases hj : j = k
      · rw [if_pos hj]
        exact hrest
      · obtain ⟨m, hm⟩ := hbefore j List.mem_cons_self hj
        rw [if_neg hj, hm]
        refine ⟨List.mem_cons_of_mem j hrest.1, ?_⟩
        intro m' hm'
        exact List.mem_cons_of_mem m (hrest.2 m' hm')

end Loop

section Tables

variable {members : List Pid} {c : Communicator}

theorem getElem?_coordinators (i : Nat) :
    (Server.tablesSpec members).coordinators[i]? =
      (Server.tablesSpec members).clusterRanks[i]?.map (clustersOf members).idxOf := by
  simp [Server.tablesSpec]

/-- Two clusters do not share a coordinator. -/
theorem coordinators_inj {i j : Nat} {dest : Nat}
    (hi : (Server.tablesSpec members).coordinators[i]? = some dest)
    (hj : (Server.tablesSpec members).coordinators[j]? = some dest) : i = j := by
  have hnodup : ((clustersOf members).eraseDups.map (clustersOf members).idxOf).Nodup := by
    refine List.Nodup.map_on ?_ (nodup_eraseDups _)
    intro k hk k' _ heq
    exact (List.idxOf_inj (List.mem_eraseDups.mp hk)).mp heq
  have hlt := (List.getElem?_eq_some_iff.mp hi).1
  exact (List.getElem?_inj hlt hnodup).mp (hi.trans hj.symm)

/-- A coordinator is a member. -/
theorem getElem?_coordinator {i dest : Nat}
    (hi : (Server.tablesSpec members).coordinators[i]? = some dest) :
    ∃ q, members[dest]? = some q := by
  rw [getElem?_coordinators] at hi
  obtain ⟨k, hk, rfl⟩ := Option.map_eq_some_iff.mp hi
  have hmem : k ∈ clustersOf members := List.mem_eraseDups.mp (List.mem_of_getElem? hk)
  have hlt : (clustersOf members).idxOf k < members.length := by
    simpa using List.idxOf_lt_length_of_mem hmem
  exact ⟨_, List.getElem?_eq_getElem hlt⟩

/-- The table of cluster ranks lists no cluster twice. -/
theorem clusterRanks_inj {i j k : Nat}
    (hi : (Server.tablesSpec members).clusterRanks[i]? = some k)
    (hj : (Server.tablesSpec members).clusterRanks[j]? = some k) : i = j := by
  have hlt := (List.getElem?_eq_some_iff.mp hi).1
  exact (List.getElem?_inj hlt (nodup_eraseDups _)).mp (hi.trans hj.symm)

end Tables

section Covers

variable {α : Type} {pk : Packing α} {p : Process} {buf : List α} {c : Communicator}
  {members : List Pid} {n clusterCount : Nat}

/-- **One send of the loop**: it goes through where there is a coordinator. -/
theorem bcastSend_eq_some (hpk : pk.Lawful) (hsend : pk.Sendable buf.length)
    (h : Mirrors p.pid n members c) {i dest : Nat} (hi : c.tables.coordinators[i]? = some dest) :
    ∃ m, bcastSend pk p.pid buf c i = some m ∧ m.opcode = opcodeCollectiveBcast ∧
      m.dest = dest := by
  have hi' := hi
  rw [h.tables] at hi'
  obtain ⟨q, hq⟩ := getElem?_coordinator hi'
  have hdest : c.getPid dest = some q := by
    rw [Communicator.getPid, h.tables]
    exact hq
  obtain ⟨payload, hsent, _⟩ :=
    doSend_eq_some p.pid hpk hsend opcodeCollectiveBcast bcastTag hdest
  exact ⟨_, by rw [bcastSend, hi, Option.bind_some, hsent], rfl, rfl⟩

/-- The tables of a member have one coordinator for each cluster. -/
theorem lt_clusterCount_iff (h : Mirrors p.pid n members c) {i : Nat} :
    i < c.clusterCount ↔ ∃ dest, c.tables.coordinators[i]? = some dest := by
  rw [h.clusterCount]
  constructor
  · intro hi
    exact ⟨_, List.getElem?_eq_getElem hi⟩
  · rintro ⟨dest, hdest⟩
    exact (List.getElem?_eq_some_iff.mp hdest).1

/-- What the loop does up to a count within the table. -/
theorem messagingBcast_reaches (hpk : pk.Lawful) (hsend : pk.Sendable buf.length)
    (h : Mirrors p.pid n members c) {i : Nat}
    (hcount : i < clusterCount) (hi : i ≤ c.clusterCount) (hne : i ≠ p.clusterRank) :
    i ∈ (messagingBcast pk clusterCount p buf c).reads ∧
      ∀ dest, c.tables.coordinators[i]? = some dest →
        ∃ m ∈ (messagingBcast pk clusterCount p buf c).sent, m.dest = dest := by
  obtain ⟨after, hafter⟩ : ∃ after, List.range clusterCount = List.range i ++ i :: after := by
    obtain ⟨d, rfl⟩ : ∃ d, clusterCount = i + (d + 1) := ⟨clusterCount - i - 1, by omega⟩
    refine ⟨(List.range d).map fun j => i + (j + 1), ?_⟩
    rw [List.range_add, List.range_succ_eq_map]
    simp [Function.comp_def]
  have hbefore : ∀ j ∈ List.range i, j ≠ p.clusterRank →
      ∃ m, bcastSend pk p.pid buf c j = some m := by
    intro j hj _
    obtain ⟨dest, hdest⟩ := (lt_clusterCount_iff h).mp
      (Nat.lt_of_lt_of_le (List.mem_range.mp hj) hi)
    obtain ⟨m, hm, _⟩ := bcastSend_eq_some hpk hsend h hdest
    exact ⟨m, hm⟩
  have hreaches := bcastFrom_reaches after hne hbefore
  rw [← hafter] at hreaches
  refine ⟨hreaches.1, ?_⟩
  intro dest hdest
  obtain ⟨m, hm, _, hto⟩ := bcastSend_eq_some hpk hsend h hdest
  exact ⟨m, hreaches.2 m hm, hto⟩

/-- A broadcast that covers the clusters was made where the numberings agree. -/
theorem agree_of_covers (hpk : pk.Lawful) (hsend : pk.Sendable buf.length)
    (h : Mirrors p.pid n members c)
    (hle : c.clusterCount ≤ clusterCount)
    (hcovers : (messagingBcast pk clusterCount p buf c).Covers p.clusterRank c) :
    c.clusterCount = clusterCount ∧
      c.tables.clusterRanks[p.clusterRank]? = some p.clusterRank := by
  have hmem : p.clusterRank ∈ c.tables.clusterRanks := by
    rw [h.tables]
    exact List.mem_eraseDups.mpr (mem_clustersOf (List.mem_of_getElem? h.globalRank))
  obtain ⟨pos, hpos⟩ := List.mem_iff_getElem?.mp hmem
  have hdest : ∃ dest, c.tables.coordinators[pos]? = some dest := by
    rw [h.tables] at hpos ⊢
    exact ⟨_, by rw [getElem?_coordinators, hpos, Option.map_some]⟩
  have hlt := (lt_clusterCount_iff h).mpr hdest
  obtain ⟨dest, hdest⟩ := hdest
  -- Its own cluster is left out only if it stands at its own rank.
  have hself : pos = p.clusterRank := by
    by_contra hne
    obtain ⟨_, hsent⟩ := messagingBcast_reaches hpk hsend h
      (Nat.lt_of_lt_of_le hlt hle) (Nat.le_of_lt hlt) hne
    obtain ⟨m, hm, hto⟩ := hsent dest hdest
    exact hcovers.own pos dest hpos hdest m hm hto
  refine ⟨?_, hself ▸ hpos⟩
  -- The first count beyond the table would be used as an index.
  by_contra hne
  have hread := (messagingBcast_reaches hpk hsend h
    (Nat.lt_of_le_of_ne hle hne) (Nat.le_refl _) (by omega)).1
  exact Nat.lt_irrefl _ (hcovers.inBounds _ hread)

/-- Where the numberings agree, a broadcast covers the clusters. -/
theorem covers_of_agree (hpk : pk.Lawful) (hsend : pk.Sendable buf.length)
    (h : Mirrors p.pid n members c)
    (hcount : c.clusterCount = clusterCount)
    (hself : c.tables.clusterRanks[p.clusterRank]? = some p.clusterRank) :
    (messagingBcast pk clusterCount p buf c).Covers p.clusterRank c := by
  subst hcount
  have hall : ∀ i, ∃ m : DataMessage, i < c.clusterCount →
      bcastSend pk p.pid buf c i = some m ∧ m.opcode = opcodeCollectiveBcast ∧
        ∃ dest, c.tables.coordinators[i]? = some dest ∧ m.dest = dest := by
    intro i
    by_cases hi : i < c.clusterCount
    · obtain ⟨dest, hdest⟩ := (lt_clusterCount_iff h).mp hi
      obtain ⟨m, hm, hopcode, hto⟩ := bcastSend_eq_some hpk hsend h hdest
      exact ⟨m, fun _ => ⟨hm, hopcode, dest, hdest, hto⟩⟩
    · exact ⟨default, fun hlt => absurd hlt hi⟩
  choose f hf using hall
  have hsends : ∀ i ∈ List.range c.clusterCount, i ≠ p.clusterRank →
      bcastSend pk p.pid buf c i = some (f i) :=
    fun i hi _ => (hf i (List.mem_range.mp hi)).1
  rw [messagingBcast, bcastFrom_eq hsends]
  have hranks := h.tables ▸ hself
  constructor
  · intro i k dest hi hk hdest
    have hne : i ≠ p.clusterRank := by
      rintro rfl
      exact hk (Option.some.inj (hi.symm.trans hself))
    have hlt := (lt_clusterCount_iff h).mpr ⟨dest, hdest⟩
    -- Of the counts that are left, `i` alone has this destination.
    have hcount : ∀ j ∈ (List.range c.clusterCount).filter (· ≠ p.clusterRank),
        ((f j).opcode == opcodeCollectiveBcast && (f j).dest == (dest : Int)) = true ↔
          (j == i) = true := by
      intro j hj
      have hjlt := List.mem_range.mp (List.mem_of_mem_filter hj)
      obtain ⟨_, hopcode, dest', hdest', hto⟩ := hf j hjlt
      rw [hopcode, hto]
      constructor
      · intro heq
        have hcast : (dest' : Int) = dest := by simpa using heq
        cases Int.ofNat.inj hcast
        rw [h.tables] at hdest hdest'
        exact beq_iff_eq.mpr (coordinators_inj hdest' hdest)
      · intro heq
        cases beq_iff_eq.mp heq
        cases Option.some.inj (hdest.symm.trans hdest')
        simp
    rw [List.countP_map]
    calc List.countP _ ((List.range c.clusterCount).filter (· ≠ p.clusterRank))
        = List.count i ((List.range c.clusterCount).filter (· ≠ p.clusterRank)) :=
          List.countP_congr hcount
      _ = 1 := by
          apply List.count_eq_one_of_mem (List.nodup_range.filter _)
          exact List.mem_filter.mpr ⟨List.mem_range.mpr hlt, decide_eq_true hne⟩
  · intro i dest hi hdest m hm hto
    obtain ⟨j, hj, rfl⟩ := List.mem_map.mp hm
    obtain ⟨hjrange, hjne⟩ := List.mem_filter.mp hj
    obtain ⟨_, _, dest', hdest', hto'⟩ := hf j (List.mem_range.mp hjrange)
    rw [hto'] at hto
    cases Int.ofNat.inj hto
    rw [h.tables] at hi hdest hdest'
    have hji := coordinators_inj hdest' hdest
    have hik := clusterRanks_inj hi hranks
    exact of_decide_eq_true hjne (hji.trans hik)
  · intro i hi
    exact List.mem_range.mp (List.mem_of_mem_filter hi)

/-- No communicator has more clusters than the run. -/
theorem clusterCount_le {cfg : Server.Config} (hvalid : cfg.Valid members)
    (h : Mirrors p.pid n members c) : c.clusterCount ≤ cfg.numberOfClusters := by
  have hsub : (clustersOf members).eraseDups ⊆ List.range cfg.numberOfClusters := by
    intro k hk
    obtain ⟨pid, hpid, rfl⟩ := List.mem_map.mp (List.mem_eraseDups.mp hk)
    exact List.mem_range.mpr (hvalid.application pid hpid).cluster_lt
  have hle := (List.subperm_of_subset (nodup_eraseDups (clustersOf members)) hsub).length_le
  rw [h.clusterCount, h.tables]
  simpa [Server.tablesSpec] using hle

/-- A broadcast of which nothing can be sent ends at the first count that is not left
out. -/
theorem messagingBcast_of_not_sendable (hsend : ¬ pk.Sendable buf.length) :
    messagingBcast pk clusterCount p buf c =
      { reads := ((List.range clusterCount).filter (· ≠ p.clusterRank)).take 1
        sent := []
        success := ((List.range clusterCount).filter (· ≠ p.clusterRank)).isEmpty } := by
  have hnone : ∀ i, bcastSend pk p.pid buf c i = none := by
    intro i
    rw [bcastSend]
    exact Option.bind_eq_none_iff.mpr fun dest _ => doSend_eq_none p.pid hsend dest bcastTag c
  rw [messagingBcast]
  induction List.range clusterCount with
  | nil => rfl
  | cons i is ih =>
      rw [bcastFrom]
      by_cases hi : i = p.clusterRank
      · rw [if_pos hi, List.filter_cons_of_neg (by simpa using hi)]
        exact ih
      · rw [if_neg hi, hnone, List.filter_cons_of_pos (by simpa using hi)]
        rfl

/-- It fails where there are several clusters. -/
theorem messagingBcast_failed (hcount : 1 < clusterCount) (hsend : ¬ pk.Sendable buf.length) :
    (messagingBcast pk clusterCount p buf c).sent = [] ∧
      (messagingBcast pk clusterCount p buf c).success = false := by
  rw [messagingBcast_of_not_sendable hsend]
  refine ⟨rfl, ?_⟩
  show ((List.range clusterCount).filter (· ≠ p.clusterRank)).isEmpty = false
  obtain ⟨k, hk, hne⟩ : ∃ k, k < clusterCount ∧ k ≠ p.clusterRank := by
    by_cases hzero : p.clusterRank = 0
    · exact ⟨1, hcount, by omega⟩
    · exact ⟨0, by omega, Ne.symm hzero⟩
  rw [List.isEmpty_eq_false_iff]
  exact List.ne_nil_of_mem (List.mem_filter.mpr ⟨List.mem_range.mpr hk, decide_eq_true hne⟩)

/-- Where nothing can be sent, a broadcast covers the clusters of a communicator that has no
other cluster, if the loop ends within its tables. -/
theorem covers_iff_of_not_sendable (hsend : ¬ pk.Sendable buf.length)
    (h : Mirrors p.pid n members c) (hle : c.clusterCount ≤ clusterCount) :
    (messagingBcast pk clusterCount p buf c).Covers p.clusterRank c ↔
      c.clusterCount = 1 ∧ (p.clusterRank = 0 → clusterCount = 1) := by
  have hbcast := @messagingBcast_of_not_sendable _ pk p buf c clusterCount hsend
  have hsent := congrArg Bcast.sent hbcast
  have hreads := congrArg Bcast.reads hbcast
  simp only at hsent hreads
  have hmem : p.clusterRank ∈ c.tables.clusterRanks := by
    rw [h.tables]
    exact List.mem_eraseDups.mpr (mem_clustersOf (List.mem_of_getElem? h.globalRank))
  have hlength : c.clusterCount = c.tables.clusterRanks.length := by
    rw [h.clusterCount, h.tables]
    simp [Server.tablesSpec]
  have hpos : 0 < c.clusterCount := hlength ▸ List.length_pos_of_mem hmem
  constructor
  · intro hcovers
    -- a cluster of the tables that is not the caller's would want a message
    have hown : ∀ k ∈ c.tables.clusterRanks, k = p.clusterRank := by
      intro k hk
      by_contra hne
      obtain ⟨i, hi⟩ := List.mem_iff_getElem?.mp hk
      obtain ⟨dest, hdest⟩ := (lt_clusterCount_iff h).mp
        (hlength ▸ (List.getElem?_eq_some_iff.mp hi).1)
      have hone := hcovers.others i k dest hi hne hdest
      rw [hsent, List.countP_nil] at hone
      exact Nat.zero_ne_one hone
    have hcount : c.clusterCount = 1 := by
      have hnodup : c.tables.clusterRanks.Nodup := h.tables ▸ nodup_eraseDups _
      have heq := List.eq_replicate_iff.mpr ⟨rfl, hown⟩
      rw [heq, List.nodup_replicate] at hnodup
      omega
    refine ⟨hcount, fun hzero => ?_⟩
    by_contra hne
    have hread : 1 ∈ (messagingBcast pk clusterCount p buf c).reads := by
      obtain ⟨m, rfl⟩ : ∃ m, clusterCount = m + 2 := ⟨clusterCount - 2, by omega⟩
      rw [hreads, hzero, List.range_succ_eq_map, List.range_succ_eq_map]
      exact List.mem_cons_self
    have hlt := hcovers.inBounds 1 hread
    omega
  · rintro ⟨hcount, hzero⟩
    have hranks : c.tables.clusterRanks = [p.clusterRank] := by
      obtain ⟨k, hk⟩ := List.length_eq_one_iff.mp (hlength.symm.trans hcount)
      rw [hk] at hmem ⊢
      rw [List.mem_singleton.mp hmem]
    constructor
    · intro i k dest hi hne _
      rw [hranks] at hi
      exact absurd (List.mem_singleton.mp (List.mem_of_getElem? hi)) hne
    · intro i dest _ _ m hm
      rw [hsent] at hm
      cases hm
    · intro i hi
      rw [hreads] at hi
      -- the first count that is not left out is 0, if there is any
      obtain ⟨hmem, hne⟩ := List.mem_filter.mp (List.mem_of_mem_take hi)
      rw [hcount]
      by_contra hge
      have hother : p.clusterRank ≠ 0 := by
        intro hrank
        have := hzero hrank
        have := List.mem_range.mp hmem
        omega
      obtain ⟨m, rfl⟩ : ∃ m, clusterCount = m + 1 :=
        ⟨clusterCount - 1, by have := List.mem_range.mp hmem; omega⟩
      rw [List.range_succ_eq_map, List.filter_cons_of_pos (by simpa using Ne.symm hother)] at hi
      have := List.mem_singleton.mp hi
      omega

/-- **When a broadcast covers the clusters.**  For every communicator that a run
can create and every member of it: exactly when the communicator contains all
clusters of the run and lists the member's own cluster at that cluster's rank, and
what is broadcast fits into a message; or, where it does not, when there is no other
cluster in the communicator, and the loop ends within its tables. -/
theorem covers_iff {cfg : Server.Config} {order : Server.HashOrder} {s : System} {pid : Pid}
    {sc : Server.Communicator} (hreach : System.Reachable cfg order s)
    (hp : s.processes pid = some p) (hsc : s.server[n]? = some (some sc))
    (hmember : pid ∈ sc.tables.members) (hc : p.comms n = some c) (hpk : pk.Lawful) :
    (messagingBcast pk cfg.numberOfClusters p buf c).Covers p.clusterRank c ↔
      if pk.Sendable buf.length then
        c.clusterCount = cfg.numberOfClusters ∧
          c.tables.clusterRanks[p.clusterRank]? = some p.clusterRank
      else
        c.clusterCount = 1 ∧ p.clusterRank ≠ 0 := by
  have hinv := System.inv_of_reachable hreach
  obtain ⟨rfl, _⟩ := hinv.process pid p hp
  obtain ⟨c', hc', hmirrors⟩ := hinv.mirror p.pid p hp n sc hsc hmember
  cases Option.some.inj (hc.symm.trans hc')
  obtain ⟨members, hvalid, rfl⟩ := hinv.communicator n sc hsc
  by_cases hsend : pk.Sendable buf.length
  · rw [if_pos hsend]
    constructor
    · exact agree_of_covers hpk hsend hmirrors (clusterCount_le hvalid hmirrors)
    · intro ⟨hcount, hself⟩
      exact covers_of_agree hpk hsend hmirrors hcount hself
  · have hclusters : 1 < cfg.numberOfClusters := cfg.one_lt_clusters
    rw [if_neg hsend, covers_iff_of_not_sendable hsend hmirrors (clusterCount_le hvalid hmirrors)]
    apply and_congr_right
    intro _
    constructor
    · intro hzero hrank
      have := hzero hrank
      omega
    · intro hne hrank
      exact absurd hrank hne

/-- In a fresh world every member's broadcast covers the clusters. -/
theorem covers_pair :
    ∃ p c, (System.start .pair System.pairServer).processes 0 = some p ∧
      p.comms 0 = some c ∧
        (messagingBcast bytePacking 2 p [7] c).Covers p.clusterRank c := by
  have hreach : System.Reachable .pair .insertion (System.start .pair System.pairServer) :=
    ⟨System.pairServer, Server.initCommWorld_eq .pair, Relation.ReflTransGen.refl⟩
  have hview : ∃ p c, (System.start .pair System.pairServer).processes 0 = some p ∧
      p.comms 0 = some c ∧ c.clusterCount = 2 ∧
        c.tables.clusterRanks[p.clusterRank]? = some p.clusterRank :=
    ⟨_, _, rfl, rfl, by decide, by decide⟩
  obtain ⟨p, c, hp, hc, hagree⟩ := hview
  have hworld : (System.start .pair System.pairServer).server[0]? = some (some
      (Server.Communicator.fresh 0 (Server.tablesSpec (Server.worldMembers .pair)))) := rfl
  exact ⟨p, c, hp, hc,
    (covers_iff hreach hp hworld (by decide) hc bytePacking_lawful).mpr
      ((if_pos (by decide)).mpr hagree)⟩

/-- With the clusters in reverse order, the coordinator of cluster 0 sends to
itself and to nobody else. -/
theorem not_covers_swapped :
    System.Reachable .pair .insertion System.swapped ∧
      ∃ p c, System.swapped.processes 0 = some p ∧ p.comms 3 = some c ∧
        ¬ (messagingBcast bytePacking 2 p [7] c).Covers p.clusterRank c := by
  refine ⟨System.reachable_swapped, ?_⟩
  have hview : ∃ p c, System.swapped.processes 0 = some p ∧ p.comms 3 = some c ∧
      p.clusterRank = 0 ∧ c.tables.clusterRanks[1]? = some 0 ∧
        c.tables.coordinators[1]? = some 1 ∧
          (messagingBcast bytePacking 2 p [7] c).sent.map (·.dest) = [1] := by
    refine ⟨_, _, rfl, rfl, ?_⟩
    decide
  obtain ⟨p, c, hp, hc, hcluster, hrank, hcoordinator, hsent⟩ := hview
  refine ⟨p, c, hp, hc, ?_⟩
  intro hcovers
  obtain ⟨m, hm, hto⟩ := List.mem_map.mp (hsent ▸ List.mem_singleton_self (1 : Int))
  exact hcovers.own 1 1 (hcluster ▸ hrank) hcoordinator m hm hto

end Covers

end EsalsaMpi
