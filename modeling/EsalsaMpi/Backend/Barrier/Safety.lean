import EsalsaMpi.Backend.Barrier.Members

/-!
# Safety of `EMPI_Barrier`

On a communicator that spans all clusters in order, no process returns from its
`k`th barrier before every member has entered its `k`th
(`separates_of_reachable`).

The invariant counts.  Nobody leaves a barrier of the library that another member
of its cluster has not entered, and on each of the ways that messages of the
barrier take (`Way`) as many have been sent as have been received or are in
flight.  To a receive, the messages of one way are all the same; no receive takes
one of another.
-/

namespace EsalsaMpi

open BarrierAction Looping MatchQueue

/-- A way that messages of the barrier take: one member's action sends them, the
other's receives them by source and tag. -/
structure Way where
  sender : Pid
  out : BarrierAction
  receiver : Pid
  into : BarrierAction
  source : Nat
  tag : Int

/-- From the coordinator of cluster `j` to the first. -/
def toFirst (members : List Pid) (j : Nat) : Way where
  sender := coordinatorPid members j
  out := send
  receiver := coordinatorPid members 0
  into := receive j
  source := coordinatorOf members j
  tag := barrierTag

/-- From the first coordinator to that of cluster `j`. -/
def fromFirst (members : List Pid) (j : Nat) : Way where
  sender := coordinatorPid members 0
  out := bcast j
  receiver := coordinatorPid members j
  into := await
  source := coordinatorOf members 0
  tag := bcastTag

/-- The ways of a communicator. -/
def IsWay (members : List Pid) (count : Nat) (w : Way) : Prop :=
  ∃ j, 0 < j ∧ j < count ∧ (w = toFirst members j ∨ w = fromFirst members j)

section Ways

variable {members : List Pid} {count : Nat} {w w' : Way}

/-- A way is given by what sends on it. -/
theorem IsWay.eq_of_out (h : SpansInOrder members count) (hw : IsWay members count w)
    (hw' : IsWay members count w') (hsender : w.sender = w'.sender) (hout : w.out = w'.out) :
    w = w' := by
  obtain ⟨j, _, hj, rfl | rfl⟩ := hw <;> obtain ⟨j', _, hj', rfl | rfl⟩ := hw'
  · rw [(coordinatorPid_inj h hj hj').mp hsender]
  · cases hout
  · cases hout
  · cases hout
    rfl

/-- It is given by what receives on it. -/
theorem IsWay.eq_of_into (h : SpansInOrder members count) (hw : IsWay members count w)
    (hw' : IsWay members count w') (hreceiver : w.receiver = w'.receiver)
    (hinto : w.into = w'.into) : w = w' := by
  obtain ⟨j, _, hj, rfl | rfl⟩ := hw <;> obtain ⟨j', _, hj', rfl | rfl⟩ := hw'
  · cases hinto
    rfl
  · cases hinto
  · cases hinto
  · rw [(coordinatorPid_inj h hj hj').mp hreceiver]

/-- It is given by the receiver, the source and the tag. -/
theorem IsWay.eq_of_tag (h : SpansInOrder members count) (hw : IsWay members count w)
    (hw' : IsWay members count w') (hreceiver : w.receiver = w'.receiver)
    (hsource : w.source = w'.source) (htag : w.tag = w'.tag) : w = w' := by
  obtain ⟨j, _, hj, rfl | rfl⟩ := hw <;> obtain ⟨j', _, hj', rfl | rfl⟩ := hw'
  · rw [coordinatorOf_inj h hj hj' hsource]
  · exact absurd htag (by decide : barrierTag ≠ bcastTag)
  · exact absurd htag (by decide : bcastTag ≠ barrierTag)
  · rw [(coordinatorPid_inj h hj hj').mp hreceiver]

/-- What sends does not receive. -/
theorem IsWay.out_ne_into (hw : IsWay members count w) (hw' : IsWay members count w') :
    w.out ≠ w'.into := by
  obtain ⟨j, _, _, rfl | rfl⟩ := hw <;> obtain ⟨j', _, _, rfl | rfl⟩ := hw' <;> nofun

/-- Messages are not barriers of the library. -/
theorem IsWay.not_local (hw : IsWay members count w) (second : Bool) :
    (w.out ≠ enter second ∧ w.out ≠ leave second) ∧
      (w.into ≠ enter second ∧ w.into ≠ leave second) := by
  obtain ⟨j, _, _, rfl | rfl⟩ := hw <;> exact ⟨⟨nofun, nofun⟩, nofun, nofun⟩

theorem IsWay.tag_ne (hw : IsWay members count w) :
    w.tag ≠ empiAnyTag ∧ (w.tag = barrierTag ∨ w.tag = bcastTag) := by
  obtain ⟨j, _, _, rfl | rfl⟩ := hw
  · exact ⟨(by decide : barrierTag ≠ empiAnyTag), Or.inl rfl⟩
  · exact ⟨(by decide : bcastTag ≠ empiAnyTag), Or.inr rfl⟩

theorem IsWay.receiver_mem (h : SpansInOrder members count) (hw : IsWay members count w) :
    w.receiver ∈ members := by
  obtain ⟨j, hpos, hj, rfl | rfl⟩ := hw
  · exact coordinatorPid_mem h (Nat.lt_trans hpos hj)
  · exact coordinatorPid_mem h hj

end Ways

/-! ## Messages -/

/-- What the receive of a way asks for. -/
def Way.pattern (w : Way) (n : Nat) : Pattern := ⟨n, w.source, w.tag⟩

/-- The message is one that travels on the way. -/
def Way.Carries (w : Way) (n : Nat) (m : DataMessage) : Bool :=
  m.dstPid == w.receiver && matchMessage m n w.source w.tag

section Carries

variable {members : List Pid} {count n : Nat} {w w' : Way} {m : DataMessage}

theorem IsWay.matches_iff (hw : IsWay members count w) :
    matchMessage m n w.source w.tag = true ↔
      n = m.comm ∧ (w.source : Int) = m.source ∧ w.tag = m.tag := by
  have hsource : (w.source : Int) ≠ empiAnySource := by
    have : empiAnySource < 0 := by decide
    omega
  simp [matchMessage_eq_true_iff, hsource, hw.tag_ne.1]

/-- **No confusion of messages**: a receiver does not take a message of one way for
one of another. -/
theorem IsWay.eq_of_matches (h : SpansInOrder members count) (hw : IsWay members count w)
    (hw' : IsWay members count w') (hreceiver : w.receiver = w'.receiver)
    (hm : matchMessage m n w.source w.tag = true)
    (hm' : matchMessage m n w'.source w'.tag = true) : w = w' := by
  obtain ⟨_, hsource, htag⟩ := hw.matches_iff.mp hm
  obtain ⟨_, hsource', htag'⟩ := hw'.matches_iff.mp hm'
  exact hw.eq_of_tag h hw' hreceiver (Int.ofNat.inj (hsource.trans hsource'.symm))
    (htag.trans htag'.symm)

/-- A message does not travel on two ways. -/
theorem IsWay.eq_of_carries (h : SpansInOrder members count) (hw : IsWay members count w)
    (hw' : IsWay members count w') (hm : w.Carries n m = true) (hm' : w'.Carries n m = true) :
    w = w' := by
  obtain ⟨hto, hm⟩ := Bool.and_eq_true_iff.mp hm
  obtain ⟨hto', hm'⟩ := Bool.and_eq_true_iff.mp hm'
  exact hw.eq_of_matches h hw' ((beq_iff_eq.mp hto).symm.trans (beq_iff_eq.mp hto')) hm hm'

end Carries

namespace Barriers

/-- How many messages travel on the way or have arrived. -/
def flying (n : Nat) (s : Barriers) (w : Way) : Nat :=
  s.gateways.countP (w.Carries n) +
    ((s.mailbox w.receiver).contents n).countP (w.pattern n).Matches

/-- How often a member has taken an action. -/
def done (members : List Pid) (count : Nat) (s : Barriers) (q : Pid) (a : BarrierAction) : Nat :=
  performed (memberProgram members count q) (s.entered q) (s.left q) a

section Flying

variable {n : Nat} {s : Barriers} {w : Way}

theorem flying_act (pid : Pid) (rest : List BarrierAction) :
    (s.act pid rest).flying n w = s.flying n w := rfl

theorem flying_post (m : DataMessage) :
    (s.post m).flying n w = s.flying n w + if w.Carries n m then 1 else 0 := by
  simp only [flying, post, List.countP_cons]
  omega

/-- What has been forwarded is in flight as before. -/
theorem flying_forward {m : DataMessage} {before after : List DataMessage} {seq : Nat}
    (hm : s.gateways = before ++ m :: after) (w : Way) :
    flying n { s with
        gateways := before ++ after
        mailbox := Function.update s.mailbox m.dstPid ((s.mailbox m.dstPid).arrive ⟨seq, m⟩) } w =
      s.flying n w := by
  simp only [flying, hm, List.countP_append, List.countP_cons]
  by_cases hto : w.receiver = m.dstPid
  · rw [hto, Function.update_self, Mailbox.contents_arrive, List.countP_append]
    have hmatch : (w.pattern n).Matches ⟨seq, m⟩ = matchMessage m n w.source w.tag := rfl
    have hcarries : w.Carries n m = matchMessage m n w.source w.tag := by
      rw [Way.Carries, hto, beq_self_eq_true, Bool.true_and]
    by_cases hcomm : m.comm = n
    · simp only [if_pos hcomm, List.countP_singleton, hmatch, hcarries]
      omega
    · have hnot : matchMessage m n w.source w.tag = false := by
        refine Bool.eq_false_iff.mpr fun hyes => hcomm ?_
        exact (matchMessage_eq_true_iff.mp hyes).1.symm
      simp [if_neg hcomm, hcarries, hnot]
  · have hnot : w.Carries n m = false := by
      rw [Way.Carries, beq_eq_false_iff_ne.mpr fun heq => hto heq.symm, Bool.false_and]
    rw [Function.update_of_ne hto]
    simp [hnot]

/-- A search without result leaves everything in flight. -/
theorem flying_poll {pid : Pid} {pat : Pattern} {blocking : Bool} {mb : Mailbox}
    (hpoll : (s.mailbox pid).poll pat blocking = .pending mb) (w : Way) :
    flying n { s with mailbox := Function.update s.mailbox pid mb } w = s.flying n w := by
  simp only [flying]
  by_cases hto : w.receiver = pid
  · rw [hto, Function.update_self, Mailbox.poll_pending hpoll]
  · rw [Function.update_of_ne hto]

/-- A receive takes one message. -/
theorem flying_took {pid : Pid} {buf : List UInt8} {pat : Pattern} {a : Arrival} {mb : Mailbox}
    (hcomm : pat.comm = n) (hpoll : (s.mailbox pid).poll pat true = .found a mb) (w : Way) :
    (s.took pid buf mb).flying n w +
        (if w.receiver = pid ∧ (w.pattern n).Matches a = true then 1 else 0) = s.flying n w := by
  simp only [flying, took]
  by_cases hto : w.receiver = pid
  · have htake := (Mailbox.poll_found hpoll).1
    rw [hcomm] at htake
    have hperm := (perm_of_takeFirst htake).countP_eq (w.pattern n).Matches
    rw [List.countP_cons] at hperm
    rw [hto, Function.update_self, ← hperm]
    simp only [true_and]
    omega
  · rw [Function.update_of_ne hto, if_neg fun h => hto h.1, Nat.add_zero]

end Flying

/-! ## The invariant -/

/-- Members of a communicator that spans all clusters in order. -/
structure Spanning (procs : Pid → Option Process) (n count : Nat) (members : List Pid) :
    Prop where
  nodup : members.Nodup
  spans : SpansInOrder members count
  pos : 0 < count
  process : ∀ pid p c, procs pid = some p → p.comms n = some c →
    p.pid = pid ∧ pid ∈ members ∧ Mirrors pid n members c ∧ c.commIsLocal = false

/-- **What holds between the steps**: the members go through their programs,
nobody has left more barriers of the library than the others of its cluster have
entered, and what has been sent has been received or is in flight. -/
structure Inv (members : List Pid) (count n : Nat) (s : Barriers) : Prop where
  runs : ∀ q ∈ members,
    Runs (memberProgram members count q) (s.entered q) (s.returned q) (s.left q)
  arrivals : ∀ q ∈ members,
    s.arrivals q = s.done members count q (enter false) + s.done members count q (enter true)
  leaves : ∀ q ∈ members, ∀ q' ∈ members, getClusterRank q = getClusterRank q' →
    s.done members count q (leave false) + s.done members count q (leave true) ≤ s.arrivals q'
  balance : ∀ w, IsWay members count w →
    s.done members count w.sender w.out =
      s.done members count w.receiver w.into + s.flying n w

section Steps

variable {procs : Pid → Option Process} {n count : Nat} {members : List Pid} {s s' : Barriers}
  {pid : Pid} {a : BarrierAction} {rest : List BarrierAction}

section Tables

variable {p : Process} {c : Communicator}

theorem Spanning.globalRank_eq (h : Spanning procs n count members) (hp : procs pid = some p)
    (hc : p.comms n = some c) : c.globalRank = members.idxOf pid := by
  obtain ⟨_, _, hmirrors, _⟩ := h.process pid p c hp hc
  obtain ⟨hlt, hget⟩ := List.getElem?_eq_some_iff.mp hmirrors.globalRank
  rw [← hget, h.nodup.idxOf_getElem _ hlt]

/-- The program that a member has. -/
theorem Spanning.empiBarrier_eq (h : Spanning procs n count members) (hp : procs pid = some p)
    (hc : p.comms n = some c) : empiBarrier count c = memberProgram members count pid := by
  obtain ⟨_, _, hmirrors, hlocal⟩ := h.process pid p c hp hc
  have hcount : c.clusterCount = count := by
    rw [hmirrors.clusterCount, hmirrors.tables]
    have hlength := congrArg List.length (show _ = List.range count from h.spans)
    rw [List.length_range] at hlength
    simpa [Server.tablesSpec] using hlength
  rw [empiBarrier, hlocal, memberProgram, ← h.globalRank_eq hp hc, hcount, hmirrors.tables]
  rfl

/-- The coordinators that it knows. -/
theorem Spanning.coordinator_eq (h : Spanning procs n count members) (hp : procs pid = some p)
    (hc : p.comms n = some c) {i r : Nat} (hi : i < count)
    (hr : c.tables.coordinators[i]? = some r) : r = coordinatorOf members i := by
  obtain ⟨_, _, hmirrors, _⟩ := h.process pid p c hp hc
  rw [hmirrors.tables, getElem?_coordinators_of_spans h.spans hi] at hr
  exact (Option.some.inj hr).symm

/-- Who a process is that has messages to send or to receive. -/
theorem Spanning.message_cases (h : Spanning procs n count members) (hinv : Inv members count n s)
    (hp : procs pid = some p) (hc : p.comms n = some c) (hleft : s.left pid = a :: rest)
    (hnot : ∀ second, a ≠ enter second ∧ a ≠ leave second) :
    (pid = coordinatorPid members 0 ∧
        ((∃ i, 0 < i ∧ i < count ∧ a = receive i) ∨ ∃ i < count, a = bcast i)) ∨
      ∃ j, 0 < j ∧ j < count ∧ pid = coordinatorPid members j ∧ (a = send ∨ a = await) := by
  have hmem := (h.process pid p c hp hc).2.1
  have hin : a ∈ memberProgram members count pid :=
    (hleft ▸ (hinv.runs pid hmem).suffix).subset List.mem_cons_self
  rcases EsalsaMpi.message_cases h.spans h.pos hmem hin with ⟨second, rfl | rfl⟩ | hcases
  · exact absurd rfl (hnot second).1
  · exact absurd rfl (hnot second).2
  · exact hcases

end Tables

theorem inv_start (procs : Pid → Option Process) : Inv members count n (start procs) where
  runs := fun q _ => Runs.start (memberProgram members count q)
  arrivals := fun q _ => by simp [done, performed, start]
  leaves := fun q _ q' _ _ => by simp [done, performed, start]
  balance := by
    intro w _
    have hempty : ((start procs).mailbox w.receiver).contents n = [] := by
      simp only [start, Mailbox.contents, List.filter_nil, List.append_nil]
      cases ((procs w.receiver).bind fun p => p.comms n) <;> rfl
    simp only [flying, hempty]
    simp [done, performed, start]

/-- A step that changes neither the processes nor what is in flight. -/
theorem Inv.congr (h : Inv members count n s) (hentered : s'.entered = s.entered)
    (hreturned : s'.returned = s.returned) (hleft : s'.left = s.left)
    (harrivals : s'.arrivals = s.arrivals)
    (hflying : ∀ w, IsWay members count w → s'.flying n w = s.flying n w) :
    Inv members count n s' := by
  have hdone : ∀ q a, s'.done members count q a = s.done members count q a := by
    intro q a
    rw [done, done, hentered, hleft]
  constructor
  · rw [hentered, hreturned, hleft]
    exact h.runs
  · simp only [hdone, harrivals]
    exact h.arrivals
  · simp only [hdone, harrivals]
    exact h.leaves
  · intro w hw
    rw [hdone, hdone, hflying w hw]
    exact h.balance w hw

/-- A process calls a barrier. -/
theorem inv_call (h : Inv members count n s) (hspan : Spanning procs n count members)
    {p : Process} {c : Communicator} (hp : procs pid = some p) (hc : p.comms n = some c)
    (hidle : s.returned pid = s.entered pid) : Inv members count n (s.call count pid c) := by
  obtain ⟨_, hmem, _⟩ := hspan.process pid p c hp hc
  have hdone : ∀ q a, (s.call count pid c).done members count q a = s.done members count q a := by
    intro q a
    simp only [done, call]
    by_cases hq : q = pid
    · rw [hq, Function.update_self, Function.update_self, hspan.empiBarrier_eq hp hc]
      exact performed_enter (h.runs pid hmem) hidle a
    · rw [Function.update_of_ne hq, Function.update_of_ne hq]
  constructor
  · intro q hq
    simp only [call]
    by_cases hself : q = pid
    · rw [hself, Function.update_self, Function.update_self, hspan.empiBarrier_eq hp hc]
      exact (h.runs pid hmem).enter hidle
    · rw [Function.update_of_ne hself, Function.update_of_ne hself]
      exact h.runs q hq
  · simp only [hdone]
    exact h.arrivals
  · simp only [hdone]
    exact h.leaves
  · intro w hw
    rw [hdone, hdone]
    exact h.balance w hw

/-- A process returns. -/
theorem inv_return (h : Inv members count n s) (hleft : s.left pid = [])
    (hbusy : s.returned pid < s.entered pid) :
    Inv members count n
      { s with returned := Function.update s.returned pid (s.returned pid + 1) } := by
  refine ⟨?_, h.arrivals, h.leaves, h.balance⟩
  intro q hq
  simp only
  by_cases hself : q = pid
  · subst hself
    rw [Function.update_self, hleft]
    exact (hleft ▸ h.runs q hq).leave hbusy
  · rw [Function.update_of_ne hself]
    exact h.runs q hq

/-! ### Actions -/

theorem done_act_self (h : Inv members count n s) (hmem : pid ∈ members)
    (hleft : s.left pid = a :: rest) :
    (s.act pid rest).done members count pid a = s.done members count pid a + 1 := by
  simp only [done, act, Function.update_self, hleft]
  exact performed_next_self (hleft ▸ h.runs pid hmem)

theorem done_act_of_ne (hleft : s.left pid = a :: rest) {q : Pid} {b : BarrierAction}
    (hne : ¬ (q = pid ∧ b = a)) :
    (s.act pid rest).done members count q b = s.done members count q b := by
  simp only [done, act]
  by_cases hq : q = pid
  · rw [hq, Function.update_self, hleft]
    exact performed_next_of_ne fun heq => hne ⟨hq, heq.symm⟩
  · rw [Function.update_of_ne hq]

theorem runs_act (h : Inv members count n s) (hleft : s.left pid = a :: rest) :
    ∀ q ∈ members, Runs (memberProgram members count q) ((s.act pid rest).entered q)
      ((s.act pid rest).returned q) ((s.act pid rest).left q) := by
  intro q hq
  simp only [act]
  by_cases hself : q = pid
  · subst hself
    rw [Function.update_self]
    exact (hleft ▸ h.runs q hq).next
  · rw [Function.update_of_ne hself]
    exact h.runs q hq

/-- An action that is no message leaves the balance alone. -/
theorem balance_act (h : Inv members count n s) (hleft : s.left pid = a :: rest)
    (hnot : ∀ w, IsWay members count w → w.out ≠ a ∧ w.into ≠ a) :
    ∀ w, IsWay members count w →
      (s.act pid rest).done members count w.sender w.out =
        (s.act pid rest).done members count w.receiver w.into + (s.act pid rest).flying n w := by
  intro w hw
  rw [done_act_of_ne hleft fun heq => (hnot w hw).1 heq.2,
    done_act_of_ne hleft fun heq => (hnot w hw).2 heq.2, flying_act]
  exact h.balance w hw

/-- An action that is no barrier of the library leaves the counts of those alone. -/
theorem inv_message (h : Inv members count n s) (hleft : s.left pid = a :: rest)
    (hnot : ∀ second, a ≠ enter second ∧ a ≠ leave second) (hentered : s'.entered = s.entered)
    (hreturned : s'.returned = s.returned) (hleft' : s'.left = (s.act pid rest).left)
    (harrivals : s'.arrivals = s.arrivals)
    (hbalance : ∀ w, IsWay members count w →
      (s.act pid rest).done members count w.sender w.out =
        (s.act pid rest).done members count w.receiver w.into + s'.flying n w) :
    Inv members count n s' := by
  have hdone : ∀ q b, s'.done members count q b = (s.act pid rest).done members count q b := by
    intro q b
    simp only [done, hentered, hleft']
    rfl
  have hsame : ∀ q b, (b ≠ a) → s'.done members count q b = s.done members count q b := by
    intro q b hne
    rw [hdone, done_act_of_ne hleft fun heq => hne heq.2]
  constructor
  · rw [hentered, hreturned, hleft']
    exact runs_act h hleft
  · intro q hq
    rw [hsame q _ (hnot false).1.symm, hsame q _ (hnot true).1.symm, harrivals]
    exact h.arrivals q hq
  · intro q hq q' hq' heq
    rw [hsame q _ (hnot false).2.symm, hsame q _ (hnot true).2.symm, harrivals]
    exact h.leaves q hq q' hq' heq
  · intro w hw
    rw [hdone, hdone]
    exact hbalance w hw

/-- A process enters a barrier of the library. -/
theorem inv_enter (h : Inv members count n s) (hmem : pid ∈ members) {second : Bool}
    (hleft : s.left pid = enter second :: rest) :
    Inv members count n { s.act pid rest with
      arrivals := Function.update s.arrivals pid (s.arrivals pid + 1) } := by
  have hleave : ∀ q second', (s.act pid rest).done members count q (leave second') =
      s.done members count q (leave second') := fun q second' =>
    done_act_of_ne hleft fun heq => by cases heq.2
  refine ⟨runs_act h hleft, ?_, ?_, balance_act h hleft fun w hw => ?_⟩
  · intro q hq
    change Function.update s.arrivals pid (s.arrivals pid + 1) q =
      (s.act pid rest).done members count q (enter false) +
        (s.act pid rest).done members count q (enter true)
    have harrivals := h.arrivals q hq
    by_cases hself : q = pid
    · subst hself
      have hdone := done_act_self h hq hleft
      rw [Function.update_self, harrivals]
      cases second with
      | false =>
          rw [hdone, done_act_of_ne hleft fun heq => by cases heq.2]
          omega
      | true =>
          rw [hdone, done_act_of_ne hleft fun heq => by cases heq.2]
          omega
    · rw [Function.update_of_ne hself, done_act_of_ne hleft fun heq => hself heq.1,
        done_act_of_ne hleft fun heq => hself heq.1, harrivals]
  · intro q hq q' hq' heq
    change (s.act pid rest).done members count q (leave false) +
        (s.act pid rest).done members count q (leave true) ≤
      Function.update s.arrivals pid (s.arrivals pid + 1) q'
    have hle := h.leaves q hq q' hq' heq
    rw [hleave, hleave]
    by_cases hself : q' = pid
    · subst hself
      rw [Function.update_self]
      exact Nat.le_succ_of_le hle
    · rw [Function.update_of_ne hself]
      exact hle
  · exact ⟨((hw.not_local second).1).1, ((hw.not_local second).2).1⟩

/-- A process leaves a barrier of the library, which all of its cluster have
entered. -/
theorem inv_leave (h : Inv members count n s) (hmem : pid ∈ members) {second : Bool}
    (hleft : s.left pid = leave second :: rest)
    (hall : ∀ q ∈ clusterMembers pid members, s.arrivals pid ≤ s.arrivals q) :
    Inv members count n (s.act pid rest) := by
  have henter : ∀ q second', (s.act pid rest).done members count q (enter second') =
      s.done members count q (enter second') := fun q second' =>
    done_act_of_ne hleft fun heq => by cases heq.2
  refine ⟨runs_act h hleft, ?_, ?_, balance_act h hleft fun w hw => ?_⟩
  · intro q hq
    rw [henter, henter]
    exact h.arrivals q hq
  · intro q hq q' hq' heq
    by_cases hself : q = pid
    · subst hself
      have hlt : s.done members count q (leave false) + s.done members count q (leave true) <
          s.done members count q (enter false) + s.done members count q (enter true) := by
        simp only [done, hleft]
        exact leaves_lt_enters (hleft ▸ h.runs q hq)
      rw [← h.arrivals q hq] at hlt
      have hle := hall q' (List.mem_filter.mpr ⟨hq', decide_eq_true heq.symm⟩)
      have hdone := done_act_self h hq hleft
      change _ ≤ s.arrivals q'
      cases second with
      | false =>
          rw [hdone, done_act_of_ne hleft fun heq => by cases heq.2]
          omega
      | true =>
          rw [hdone, done_act_of_ne hleft fun heq => by cases heq.2]
          omega
    · rw [done_act_of_ne hleft fun heq => hself heq.1, done_act_of_ne hleft fun heq => hself heq.1]
      exact h.leaves q hq q' hq' heq
  · exact ⟨((hw.not_local second).1).2, ((hw.not_local second).2).2⟩

/-- A message sets out on its way. -/
theorem inv_out (h : Inv members count n s) (hspans : SpansInOrder members count)
    {w : Way} (hw : IsWay members count w) (hmem : w.sender ∈ members)
    (hleft : s.left w.sender = w.out :: rest) {m : DataMessage} (hm : w.Carries n m = true) :
    Inv members count n ((s.act w.sender rest).post m) := by
  refine inv_message h hleft (fun second => (hw.not_local second).1) rfl rfl rfl rfl ?_
  intro w' hw'
  have hbalance := h.balance w' hw'
  rw [flying_post, flying_act, done_act_of_ne hleft fun heq => hw.out_ne_into hw' heq.2.symm]
  by_cases hsame : w' = w
  · subst hsame
    rw [done_act_self h hmem hleft, if_pos hm]
    omega
  · rw [if_neg fun hm' => hsame (hw'.eq_of_carries hspans hw hm' hm),
      done_act_of_ne hleft fun heq => hsame (hw'.eq_of_out hspans hw heq.1 heq.2)]
    omega

/-- A message is received. -/
theorem inv_into (h : Inv members count n s) (hspans : SpansInOrder members count)
    {w : Way} (hw : IsWay members count w) (hleft : s.left w.receiver = w.into :: rest)
    {buf : List UInt8} {a : Arrival} {mb : Mailbox}
    (hpoll : (s.mailbox w.receiver).poll (w.pattern n) true = .found a mb) :
    Inv members count n ((s.act w.receiver rest).took w.receiver buf mb) := by
  refine inv_message h hleft (fun second => (hw.not_local second).2) rfl rfl rfl rfl ?_
  intro w' hw'
  have hbalance := h.balance w' hw'
  have hmatches : (w.pattern n).Matches a = true := of_takeFirst (Mailbox.poll_found hpoll).1
  have htook : ((s.act w.receiver rest).took w.receiver buf mb).flying n w' +
      (if w'.receiver = w.receiver ∧ (w'.pattern n).Matches a = true then 1 else 0) =
        s.flying n w' := @flying_took n (s.act w.receiver rest) w.receiver buf _ a mb rfl hpoll w'
  rw [done_act_of_ne hleft fun heq => hw'.out_ne_into hw heq.2]
  by_cases hsame : w' = w
  · subst hsame
    rw [if_pos ⟨rfl, hmatches⟩] at htook
    rw [done_act_self h (hw.receiver_mem hspans) hleft]
    omega
  · rw [done_act_of_ne hleft fun heq => hsame (hw'.eq_of_into hspans hw heq.1 heq.2)]
    rw [if_neg fun heq => hsame (hw'.eq_of_matches hspans hw heq.1 heq.2 hmatches)] at htook
    omega

/-- A message has what `do_send` gives it. -/
theorem carries_of_doSend {pk : Packing UInt8} {opcode : Nat} {buf : List UInt8} {dest : Nat}
    {tag : Int} {c : Communicator} {m : DataMessage} {w : Way} {q : Pid}
    (hmirrors : Mirrors pid n members c) (hsource : c.globalRank = w.source) (htag : tag = w.tag)
    (hw : IsWay members count w) (hdest : members[dest]? = some w.receiver)
    (h : doSend pk q opcode buf dest tag c = some m) : w.Carries n m = true := by
  obtain ⟨_, dstPid, payload, hdstPid, rfl⟩ := exists_of_doSend h
  rw [Communicator.getPid, hmirrors.tables] at hdstPid
  cases hdest.symm.trans hdstPid
  refine Bool.and_eq_true_iff.mpr ⟨beq_self_eq_true _, hw.matches_iff.mpr
    ⟨hmirrors.handle.symm, congrArg Int.ofNat hsource.symm, htag.symm⟩⟩

/-- What a receive has found. -/
theorem poll_of_messagingReceive {pk : Packing UInt8} {c : Communicator} {buf : List UInt8}
    {count : Nat} {type source tag : Int} {mb mb' : Mailbox} {result : List UInt8 × Status}
    (h : messagingReceive pk c buf count type source tag mb = .done result mb') :
    ∃ a, mb.poll ⟨c.handle, source, tag⟩ true = .found a mb' := by
  unfold messagingReceive at h
  cases hpoll : mb.poll ⟨c.handle, source, tag⟩ true with
  | found a mb₁ =>
      simp only [hpoll] at h
      split at h
      · cases h
        exact ⟨a, rfl⟩
      · cases h
  | pending mb₁ => simp [hpoll] at h
  | crashed => simp [hpoll] at h

/-- **Every step keeps the invariant.** -/
theorem inv_step {pk : Packing UInt8} {type : Int} (h : Inv members count n s)
    (hspan : Spanning procs n count members) (hstep : Step pk type count procs n s s') :
    Inv members count n s' := by
  have hspans := hspan.spans
  cases hstep with
  | call hp hc hidle => exact inv_call h hspan hp hc hidle
  | enter hp hc hleft => exact inv_enter h (hspan.process _ _ _ hp hc).2.1 hleft
  | leave hp hc hleft hall =>
      obtain ⟨_, hmem, hmirrors, _⟩ := hspan.process _ _ _ hp hc
      rw [hmirrors.comm] at hall
      exact inv_leave h hmem hleft hall
  | send hp hc hleft hdest hm =>
      obtain ⟨_, hmem, hmirrors, _⟩ := hspan.process _ _ _ hp hc
      rcases hspan.message_cases h hp hc hleft fun _ => ⟨by rintro ⟨⟩, by rintro ⟨⟩⟩ with
        ⟨_, ⟨_, _, _, h⟩ | ⟨_, _, h⟩⟩ | ⟨j, hpos, hj, rfl, _⟩
      · cases h
      · cases h
      · have hway : IsWay members count (toFirst members j) := ⟨j, hpos, hj, Or.inl rfl⟩
        have hrank := hspan.globalRank_eq hp hc
        rw [idxOf_coordinatorPid hspans hspan.nodup hj] at hrank
        rw [hspan.coordinator_eq hp hc hspan.pos hdest] at hm
        exact inv_out h hspans hway hmem hleft
          (carries_of_doSend hmirrors hrank rfl hway (getElem?_coordinatorPid hspans hspan.pos) hm)
  | @skip pid p c i rest hp hc hleft hi =>
      obtain ⟨hself, _⟩ := hspan.process _ _ _ hp hc
      have hzero : i = 0 := by
        rcases hspan.message_cases h hp hc hleft fun _ => ⟨by rintro ⟨⟩, by rintro ⟨⟩⟩ with
          ⟨hfirst, _⟩ | ⟨_, _, _, _, h | h⟩
        · rw [hi, Process.clusterRank, hself, hfirst, cluster_coordinatorPid hspans hspan.pos]
        · cases h
        · cases h
      subst hzero
      refine inv_message h hleft (fun _ => ⟨by rintro ⟨⟩, by rintro ⟨⟩⟩) rfl rfl rfl rfl
        (balance_act h hleft fun w hw => ?_)
      obtain ⟨j, hpos, _, rfl | rfl⟩ := hw
      · exact ⟨by rintro ⟨⟩, by rintro ⟨⟩⟩
      · exact ⟨fun heq => absurd (BarrierAction.bcast.inj heq) (Nat.ne_of_gt hpos), by rintro ⟨⟩⟩
  | @bcast pid p c i rest m hp hc hleft hi hm =>
      obtain ⟨hself, hmem, hmirrors, _⟩ := hspan.process _ _ _ hp hc
      rcases hspan.message_cases h hp hc hleft fun _ => ⟨by rintro ⟨⟩, by rintro ⟨⟩⟩ with
        ⟨rfl, ⟨_, _, _, h⟩ | ⟨_, hlt, heq⟩⟩ | ⟨_, _, _, _, h | h⟩
      · cases h
      · cases heq
        rw [Process.clusterRank, hself, cluster_coordinatorPid hspans hspan.pos] at hi
        have hway : IsWay members count (fromFirst members i) :=
          ⟨i, Nat.pos_of_ne_zero hi, hlt, Or.inr rfl⟩
        have hrank := hspan.globalRank_eq hp hc
        rw [idxOf_coordinatorPid hspans hspan.nodup hspan.pos] at hrank
        obtain ⟨dest, hdest, hm⟩ := Option.bind_eq_some_iff.mp hm
        rw [hspan.coordinator_eq hp hc hlt hdest] at hm
        exact inv_out h hspans hway hmem hleft
          (carries_of_doSend hmirrors hrank rfl hway (getElem?_coordinatorPid hspans hlt) hm)
      · cases h
      · cases h
  | @receive pid p c i rest source result mb hp hc hleft hsource hreceive =>
      obtain ⟨_, _, hmirrors, _⟩ := hspan.process _ _ _ hp hc
      obtain ⟨a, hpoll⟩ := poll_of_messagingReceive hreceive
      rcases hspan.message_cases h hp hc hleft fun _ => ⟨by rintro ⟨⟩, by rintro ⟨⟩⟩ with
        ⟨rfl, ⟨_, hpos, hlt, heq⟩ | ⟨_, _, h⟩⟩ | ⟨_, _, _, _, h | h⟩
      · cases heq
        rw [hmirrors.handle, hspan.coordinator_eq hp hc hlt hsource] at hpoll
        exact inv_into h hspans (w := toFirst members i) ⟨i, hpos, hlt, Or.inl rfl⟩ hleft hpoll
      · cases h
      · cases h
      · cases h
  | await hp hc hleft hsource hreceive =>
      obtain ⟨_, _, hmirrors, _⟩ := hspan.process _ _ _ hp hc
      obtain ⟨a, hpoll⟩ := poll_of_messagingReceive hreceive
      rcases hspan.message_cases h hp hc hleft fun _ => ⟨by rintro ⟨⟩, by rintro ⟨⟩⟩ with
        ⟨_, ⟨_, _, _, h⟩ | ⟨_, _, h⟩⟩ | ⟨j, hpos, hj, rfl, _⟩
      · cases h
      · cases h
      · rw [hmirrors.handle, hspan.coordinator_eq hp hc hspan.pos hsource] at hpoll
        exact inv_into h hspans (w := fromFirst members j) ⟨j, hpos, hj, Or.inr rfl⟩ hleft hpoll
  | poll hpoll => exact h.congr rfl rfl rfl rfl fun w _ => flying_poll hpoll w
  | «return» hleft hbusy => exact inv_return h hleft hbusy
  | forward hm => exact h.congr rfl rfl rfl rfl fun w _ => flying_forward hm w
  | other hm =>
      refine h.congr rfl rfl rfl rfl fun w hw => ?_
      rw [flying_post, if_neg, Nat.add_zero]
      intro hcarries
      obtain ⟨_, hmatch⟩ := Bool.and_eq_true_iff.mp hcarries
      obtain ⟨hcomm, _, htag⟩ := hw.matches_iff.mp hmatch
      rcases hm with hm | ⟨hbarrier, hbcast⟩
      · exact hm hcomm.symm
      · rcases hw.tag_ne.2 with heq | heq
        · exact hbarrier (htag.symm.trans heq)
        · exact hbcast (htag.symm.trans heq)

end Steps

/-! ## What it means for the calls -/

section Rounds

variable {n count : Nat} {members : List Pid} {s : Barriers}

/-- A coordinator enters its second barrier of the library when all coordinators
have left their first. -/
theorem leave_of_enter (h : Inv members count n s) (hnodup : members.Nodup)
    (hspans : SpansInOrder members count) {i j : Nat} (hi : i < count) (hj : j < count) :
    s.done members count (coordinatorPid members i) (enter true) ≤
      s.done members count (coordinatorPid members j) (leave false) := by
  have hruns : ∀ k < count, Runs (memberProgram members count (coordinatorPid members k)) _ _ _ :=
    fun k hk => h.runs _ (coordinatorPid_mem hspans hk)
  have hcount : 0 < count := Nat.lt_of_le_of_lt (Nat.zero_le i) hi
  -- what the first coordinator has received has been sent
  have hheard : ∀ k, 0 < k → k < count →
      s.done members count (coordinatorPid members 0) (receive k) ≤
        s.done members count (coordinatorPid members k) (leave false) := by
    intro k hpos hk
    have hbalance := h.balance (toFirst members k) ⟨k, hpos, hk, Or.inl rfl⟩
    calc s.done members count (coordinatorPid members 0) (receive k)
        ≤ s.done members count (coordinatorPid members k) send := Nat.le.intro hbalance.symm
      _ ≤ s.done members count (coordinatorPid members k) (leave false) :=
        performed_le_leave (hruns k hk) (count_other hspans hnodup hpos hk).1
  -- what another one has awaited has been sent by the first
  have hanswered : ∀ k, 0 < k → k < count →
      s.done members count (coordinatorPid members k) (enter true) ≤
        s.done members count (coordinatorPid members 0) (bcast k) := by
    intro k hpos hk
    have hbalance := h.balance (fromFirst members k) ⟨k, hpos, hk, Or.inr rfl⟩
    calc s.done members count (coordinatorPid members k) (enter true)
        ≤ s.done members count (coordinatorPid members k) await :=
        performed_enter_le (hruns k hk) (count_other hspans hnodup hpos hk).2
      _ ≤ s.done members count (coordinatorPid members 0) (bcast k) := Nat.le.intro hbalance.symm
  rcases Nat.eq_zero_or_pos i with rfl | hipos <;> rcases Nat.eq_zero_or_pos j with rfl | hjpos
  · exact performed_enter_le_leave (hruns 0 hcount)
  · exact Nat.le_trans
      (performed_enter_le (hruns 0 hcount) (count_first hspans hnodup hjpos hj).1) (hheard j hjpos hj)
  · exact Nat.le_trans (hanswered i hipos hi)
      (performed_le_leave (hruns 0 hcount) (count_first hspans hnodup hipos hi).2)
  · calc s.done members count (coordinatorPid members i) (enter true)
        ≤ s.done members count (coordinatorPid members 0) (bcast i) := hanswered i hipos hi
      _ ≤ s.done members count (coordinatorPid members 0) (receive j) :=
        performed_bcast_le hspans hnodup hipos hi hjpos hj (hruns 0 hcount)
      _ ≤ s.done members count (coordinatorPid members j) (leave false) := hheard j hjpos hj

/-- **The returns are not ahead of the entries.** -/
theorem returned_le_entered (h : Inv members count n s) (hnodup : members.Nodup)
    (hspans : SpansInOrder members count) {pid q : Pid} (hpid : pid ∈ members)
    (hq : q ∈ members) : s.returned pid ≤ s.entered q := by
  have hi := cluster_lt_of_mem hspans hpid
  have hj := cluster_lt_of_mem hspans hq
  have himem := coordinatorPid_mem hspans hi
  have hjmem := coordinatorPid_mem hspans hj
  -- the process has left its barriers, so its coordinator has entered them
  have henter : s.returned pid ≤
      s.done members count (coordinatorPid members (getClusterRank pid)) (enter true) := by
    have hfirst := returned_le_performed (h.runs pid hpid) (count_local members count pid false).2
    have hsecond := returned_le_performed (h.runs pid hpid) (count_local members count pid true).2
    have hleaves := h.leaves pid hpid _ himem (cluster_coordinatorPid hspans hi).symm
    have hsucc := performed_le_succ (h.runs _ himem) (count_local members count _ false).1
      (count_local members count _ true).1
    rw [h.arrivals _ himem] at hleaves
    simp only [done] at hleaves ⊢
    omega
  -- then the other coordinator has left the first of them
  have hleave := Nat.le_trans henter (leave_of_enter h hnodup hspans hi hj)
  -- which the other member has entered
  have hleaves := h.leaves _ hjmem q hq (cluster_coordinatorPid hspans hj)
  have hsucc := performed_le_succ (h.runs _ hjmem) (count_local members count _ false).2
    (count_local members count _ true).2
  have hle := performed_second_le (h.runs q hq)
  have hentered : s.done members count q (enter false) ≤ s.entered q :=
    performed_le_entered (count_local members count q false).1
  rw [h.arrivals q hq] at hleaves
  simp only [done] at hleave hleaves hentered
  omega

end Rounds

/-- No process has returned more often than every member has entered. -/
def Separates (s : Barriers) (members : List Pid) : Prop :=
  ∀ pid ∈ members, ∀ q ∈ members, s.returned pid ≤ s.entered q

section Runs

variable {cfg : Server.Config} {order : Server.HashOrder} {sys : System} {n : Nat}
  {sc : Server.Communicator}

/-- The members of a communicator of a run. -/
theorem spanning_of_reachable (hreach : System.Reachable cfg order sys)
    (hsc : sys.server[n]? = some (some sc))
    (hranks : sc.tables.clusterRanks = List.range cfg.numberOfClusters) :
    Spanning sys.processes n cfg.numberOfClusters sc.tables.members := by
  have hinv := System.inv_of_reachable hreach
  obtain ⟨members, hvalid, rfl⟩ := hinv.communicator n sc hsc
  have hcount := cfg.one_lt_clusters
  refine ⟨hvalid.nodup, hranks, Nat.lt_trans Nat.zero_lt_one hcount, ?_⟩
  intro pid p c hp hc
  have hnot : ∀ i, sys.server[i]? = some none → n ≠ i := by
    rintro i hi rfl
    cases hsc.symm.trans hi
  obtain ⟨sc', hsc', hmem⟩ := hinv.known pid p hp n c hc (hnot 1 hinv.reserved.1)
    (hnot 2 hinv.reserved.2)
  cases hsc.symm.trans hsc'
  obtain ⟨c', hc', hmirrors⟩ := hinv.mirror pid p hp n _ hsc hmem
  cases hc.symm.trans hc'
  refine ⟨(hinv.process pid p hp).1, hmem, hmirrors, Bool.eq_false_iff.mpr fun hlocal => ?_⟩
  -- the coordinators of two clusters are not in one
  have hone := (System.commIsLocal_iff hreach hp hc).mp hlocal
  rw [hmirrors.tables] at hone
  have hsame := hone.2 _ (coordinatorPid_mem hranks (Nat.lt_trans Nat.zero_lt_one hcount)) _
    (coordinatorPid_mem hranks hcount)
  rw [cluster_coordinatorPid hranks (Nat.lt_trans Nat.zero_lt_one hcount),
    cluster_coordinatorPid hranks hcount] at hsame
  cases hsame

/-- **`EMPI_Barrier` is a barrier**: on a communicator that spans all clusters in
order, no process returns from its `k`th barrier before every member has entered
its `k`th. -/
theorem separates_of_reachable (hreach : System.Reachable cfg order sys)
    (hsc : sys.server[n]? = some (some sc))
    (hranks : sc.tables.clusterRanks = List.range cfg.numberOfClusters) {pk : Packing UInt8}
    {type : Int} {s : Barriers} (hs : Reachable pk type cfg.numberOfClusters sys.processes n s) :
    s.Separates sc.tables.members := by
  have hspan := spanning_of_reachable hreach hsc hranks
  have hinv : Inv sc.tables.members cfg.numberOfClusters n s := by
    induction hs with
    | refl => exact inv_start sys.processes
    | tail _ hstep ih => exact inv_step ih hspan hstep
  intro pid hpid q hq
  exact returned_le_entered hinv hspan.nodup hspan.spans hpid hq

/-- The processes of `Config.pair`. -/
def pairMembers : Pid → Option Process := (System.start .pair System.pairServer).processes

/-- In a world of two processes the first returns from a barrier. -/
theorem separates_pair : ∃ s, Reachable bytePacking 0 2 pairMembers 0 s ∧ s.returned 0 = 1 ∧
    s.Separates (Server.worldMembers .pair) := by
  have hreach : System.Reachable .pair .insertion (System.start .pair System.pairServer) :=
    ⟨System.pairServer, Server.initCommWorld_eq .pair, Relation.ReflTransGen.refl⟩
  have hworld : (System.start .pair System.pairServer).server[0]? = some (some
      (Server.Communicator.fresh 0 (Server.tablesSpec (Server.worldMembers .pair)))) := rfl
  have h0 : Reachable bytePacking 0 2 pairMembers 0 (start pairMembers) :=
    Relation.ReflTransGen.refl
  have h1 := h0.tail (@Step.call bytePacking 0 2 pairMembers 0 _ 0 _ _ rfl rfl rfl)
  have h2 := h1.tail (@Step.call bytePacking 0 2 pairMembers 0 _ (setPid 1 0) _ _ rfl rfl rfl)
  have h3 := h2.tail (@Step.enter bytePacking 0 2 pairMembers 0 _ 0 _ _ _ _ rfl rfl rfl)
  have h4 := h3.tail (@Step.enter bytePacking 0 2 pairMembers 0 _ (setPid 1 0) _ _ _ _ rfl rfl rfl)
  have h5 := h4.tail (@Step.leave bytePacking 0 2 pairMembers 0 _ 0 _ _ _ _ rfl rfl rfl
    (List.forall_mem_singleton.mpr (by decide)))
  have h6 := h5.tail (@Step.leave bytePacking 0 2 pairMembers 0 _ (setPid 1 0) _ _ _ _ rfl rfl rfl
    (List.forall_mem_singleton.mpr (by decide)))
  have h7 := h6.tail (@Step.send bytePacking 0 2 pairMembers 0 _ (setPid 1 0) _ _ _ _ _ rfl rfl rfl
    rfl rfl)
  have h8 := h7.tail (@Step.forward bytePacking 0 2 pairMembers 0 _ _ [] [] 0 rfl)
  have h9 := h8.tail (@Step.receive bytePacking 0 2 pairMembers 0 _ 0 _ _ _ _ _ _ _ rfl rfl rfl rfl
    rfl)
  have h10 := h9.tail (@Step.skip bytePacking 0 2 pairMembers 0 _ 0 _ _ _ _ rfl rfl rfl rfl)
  have h11 := h10.tail (@Step.bcast bytePacking 0 2 pairMembers 0 _ 0 _ _ _ _ _ rfl rfl rfl
    (by decide) rfl)
  have h12 := h11.tail (@Step.enter bytePacking 0 2 pairMembers 0 _ 0 _ _ _ _ rfl rfl rfl)
  have h13 := h12.tail (@Step.leave bytePacking 0 2 pairMembers 0 _ 0 _ _ _ _ rfl rfl rfl
    (List.forall_mem_singleton.mpr (by decide)))
  have h14 := h13.tail (@Step.return bytePacking 0 2 pairMembers 0 _ 0 rfl (by decide))
  exact ⟨_, h14, rfl, separates_of_reachable hreach hworld (by decide) h14⟩

end Runs

end Barriers

end EsalsaMpi
