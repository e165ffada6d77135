import EsalsaMpi.Concurrent.Delivery

/-!
# Data that arrives

A member may send on a new communicator while another member is still in the
call that creates it, so that data may well arrive first.  But a process takes
data out of the library only between its calls, and by then it has entered the
communicator in its table: `knownWhenTaken_of_reachable`.
-/

namespace EsalsaMpi

/-- The queues of the mailbox are those of the communicators in the table. -/
def Mailbox.Of (mb : Mailbox) (p : Process) : Prop :=
  ∀ h, (mb.queue h).isSome = (p.comms h).isSome

theorem Mailbox.Of.storeMessage {mb : Mailbox} {p : Process} (h : mb.Of p) (a : Arrival) :
    mb.storeMessage a ≠ none ↔ (p.comms a.message.comm).isSome := by
  rw [Mailbox.storeMessage, ne_eq, Option.map_eq_none_iff, ← h a.message.comm]
  cases mb.queue a.message.comm <;> simp

namespace Application

variable {cfg : Server.Config} {order : Server.HashOrder} {s s' : Application} {pid : Pid}
  {m : DataMessage}

/-- A message is on a communicator that its destination has in its table, or of
which it is a member. -/
def Addressed (s : Application) (m : DataMessage) : Prop :=
  (∀ p, s.base.processes m.dstPid = some p → (p.comms m.comm).isSome) ∨
    ∃ t, s.Live m.comm t ∧ m.dstPid ∈ t.members

/-- All data on its way is. -/
structure DataInv (s : Application) : Prop where
  gateways : ∀ m ∈ s.gateways, s.Addressed m
  arrived : ∀ pid, ∀ m ∈ s.arrived pid, m.dstPid = pid ∧ s.Addressed m

/-- The communicators of the server stay, with their tables. -/
theorem live_step (hinv : Inv cfg s) (hstep : Step cfg order s s') {n : Nat} {t : Tables}
    (h : s.Live n t) : s'.Live n t := by
  cases hstep with
  | deliver hrequest hmonitor =>
      rename_i req before after
      rcases @Server.admitRequest_cases cfg order s.base.server req with
        hsame | ⟨c, hlive, _, hcases⟩
      · obtain ⟨c, hc, ht⟩ := h
        refine ⟨c, ?_, ht⟩
        simp only [deliver, Concurrent.deliver, hsame]
        exact hc
      · have hnumber := hinv.base.numbered _ _ hlive
        rcases hcases with ⟨_, hadmit⟩ | ⟨_, hadmit⟩ <;>
          simp only [Live, deliver, Concurrent.deliver, hadmit, hnumber]
        · exact (@live_set s _ c (c.store req) hlive rfl n t).mpr h
        · exact (@live_set s _ c (c.store req).reset hlive rfl n t).mpr h
  | perform hwork =>
      obtain ⟨t', requests, server, ms, _, hrun, heffect, _⟩ := working_of_audience hinv hwork
      obtain ⟨c, hc, ht⟩ := h
      refine ⟨c, ?_, ht⟩
      simp only [perform, Concurrent.perform, hrun]
      rcases heffect.server with rfl | ⟨pids, _, rfl, _⟩
      · exact hc
      · exact (List.getElem?_append_left (List.getElem?_eq_some_iff.mp hc).1).trans hc
  | call hphase hp hc hlegal => exact h
  | accept hphase hp hc hreply hcomm => exact h
  | halt hphase => exact h
  | send hphase hp hc hm => exact h
  | forward hm => exact h
  | take hphase hm => exact h

/-- What a process has in its table stays there. -/
theorem isSome_step (hstep : Step cfg order s s') {n : Nat}
    (h : ∀ p, s.base.processes pid = some p → (p.comms n).isSome) :
    ∀ p, s'.base.processes pid = some p → (p.comms n).isSome := by
  cases hstep with
  | accept hphase hp hc hreply hcomm =>
      rename_i q p c call body before after comm
      intro p' hp'
      by_cases hq : pid = q
      · subst hq
        simp only [accept, Concurrent.accept, Function.update_self, Option.some.injEq] at hp'
        subst hp'
        exact isSome_conclude (h p hp)
      · simp only [accept, Concurrent.accept, Function.update_of_ne hq] at hp'
        exact h p' hp'
  | perform hwork =>
      rename_i n' job jobs
      intro p hp
      refine h p ?_
      rw [← hp, perform]
      split <;> simp only [Concurrent.perform] <;> split <;> rfl
  | call hphase hp hc hlegal => exact h
  | deliver hrequest hmonitor => exact h
  | halt hphase => exact h
  | send hphase hp hc hm => exact h
  | forward hm => exact h
  | take hphase hm => exact h

theorem Addressed.step (hinv : Inv cfg s) (hstep : Step cfg order s s') (h : s.Addressed m) :
    s'.Addressed m :=
  h.imp (isSome_step hstep) fun ⟨t, hl, hmem⟩ => ⟨t, live_step hinv hstep hl, hmem⟩

/-- A message that a process sends is addressed to a member. -/
theorem addressed_of_doSend (hinv : Inv cfg s) {p : Process} {c : Communicator} {handle : Nat}
    {α : Type} {pk : Packing α} {opcode dest : Nat} {buf : List α} {tag : Int}
    (hp : s.base.processes pid = some p) (hc : p.comms handle = some c)
    (hm : doSend pk pid opcode buf dest tag c = some m) : s.Addressed m := by
  obtain ⟨_, dstPid, payload, hdst, rfl⟩ := exists_of_doSend hm
  have hmember : dstPid ∈ c.tables.members := List.mem_of_getElem? hdst
  obtain ⟨hhandle, hknown⟩ := (hinv.process pid p hp).known handle c hc
  simp only [Addressed, createDataMessage, hhandle]
  rcases hknown with hreserved | ⟨hl, _⟩
  · left
    intro p' hp'
    rw [(hinv.process pid p hp).reserved handle c hc hreserved dstPid hmember, hp] at hp'
    cases hp'
    rw [hc]
    rfl
  · exact Or.inr ⟨c.tables, hl, hmember⟩

/-- The data of a step is what was there, or addressed to a member. -/
theorem dataInv_step (hinv : Inv cfg s) (hdata : s.DataInv) (hstep : Step cfg order s s') :
    s'.DataInv := by
  have hgateways : ∀ m ∈ s.gateways, s'.Addressed m := fun m hm =>
    (hdata.gateways m hm).step hinv hstep
  have harrived : ∀ pid, ∀ m ∈ s.arrived pid, m.dstPid = pid ∧ s'.Addressed m := fun pid m hm =>
    (hdata.arrived pid m hm).imp_right fun h => h.step hinv hstep
  have hstep' := hstep
  cases hstep with
  | send hphase hp hc hm =>
      refine ⟨?_, harrived⟩
      intro m' hm'
      rcases List.mem_cons.mp hm' with rfl | hm'
      · exact (addressed_of_doSend hinv hp hc hm).step hinv hstep'
      · exact hgateways m' hm'
  | forward hm =>
      rename_i m before after
      refine ⟨?_, ?_⟩
      · intro m' hm'
        refine hgateways m' ?_
        rw [hm]
        rcases List.mem_append.mp hm' with h | h <;> simp [h]
      · intro pid m' hm'
        simp only [Queues.push_apply, List.mem_append] at hm'
        rcases hm' with hm' | hm'
        · exact harrived pid m' hm'
        · split at hm'
          · rename_i hpid
            rw [List.mem_singleton] at hm'
            subst hm'
            exact ⟨hpid.symm, hgateways m' (by rw [hm]; simp)⟩
          · cases hm'
  | take hphase hm =>
      rename_i q m before after
      refine ⟨hgateways, ?_⟩
      intro pid m' hm'
      by_cases hpid : pid = q
      · subst hpid
        refine harrived pid m' ?_
        simp only [Function.update_self] at hm'
        rw [hm]
        rcases List.mem_append.mp hm' with h | h <;> simp [h]
      · simp only [Function.update_of_ne hpid] at hm'
        exact harrived pid m' hm'
  | perform hwork =>
      rename_i n job jobs
      have hsame : (s.perform cfg n job jobs).gateways = s.gateways ∧
          (s.perform cfg n job jobs).arrived = s.arrived := by
        rw [perform]
        split <;> exact ⟨rfl, rfl⟩
      refine ⟨?_, ?_⟩
      · rw [hsame.1]
        exact hgateways
      · rw [hsame.2]
        exact harrived
  | call hphase hp hc hlegal => exact ⟨hgateways, harrived⟩
  | deliver hrequest hmonitor => exact ⟨hgateways, harrived⟩
  | accept hphase hp hc hreply hcomm => exact ⟨hgateways, harrived⟩
  | halt hphase => exact ⟨hgateways, harrived⟩

/-- **All data is addressed to members.** -/
theorem dataInv_of_reachable (h : Reachable cfg order s) : s.DataInv := by
  obtain ⟨server, hserver, hrun⟩ := h
  induction hrun with
  | refl =>
      refine ⟨?_, ?_⟩
      · intro m hm
        cases hm
      · intro pid m hm
        cases hm
  | tail hrun hstep ih => exact dataInv_step (inv_of_reachable ⟨server, hserver, hrun⟩) ih hstep

/-- The process `pid` has an entry for whatever it may take out of the library
of its cluster, so that `store_message` has a queue for it. -/
def KnownWhenTaken (s : Application) (pid : Pid) : Prop :=
  s.phase pid = .running → ∀ p, s.base.processes pid = some p → ∀ m ∈ s.arrived pid,
    (p.comms m.comm).isSome ∧ ∀ mb : Mailbox, mb.Of p → ∀ seq, mb.storeMessage ⟨seq, m⟩ ≠ none

/-- **No data message reaches a process before its communicator exists there**,
as long as the numbers stay below `MAX_COMMUNICATORS`. -/
theorem knownWhenTaken_of_reachable (h : Reachable cfg order s)
    (hmax : ∀ n ∈ s.base.handedOut, n < maxCommunicators) (pid : Pid) : s.KnownWhenTaken pid := by
  intro hphase p hp m hm
  have hinv := inv_of_reachable h
  have hlength : s.base.server.length ≤ maxCommunicators := by
    by_contra hlt
    have hmem : maxCommunicators ∈ s.base.handedOut :=
      hinv.base.issued.mem_iff.mpr ⟨by decide, Nat.lt_of_not_le hlt⟩
    exact Nat.lt_irrefl _ (hmax _ hmem)
  have hsome : (p.comms m.comm).isSome := by
    obtain ⟨hdst, hknown | ⟨t, hl, hmember⟩⟩ := (dataInv_of_reachable h).arrived pid m hm
    · exact hknown p (hdst ▸ hp)
    · rcases hinv.table _ t hl pid (hdst ▸ hmember) p hp (by rw [hphase]; nofun) hlength with
        hsome | ⟨_, _, hanswered, _⟩
      · exact hsome
      · rw [hphase] at hanswered
        cases hanswered
  exact ⟨hsome, fun mb hmb seq => (hmb.storeMessage ⟨seq, m⟩).mpr hsome⟩

/-- The process with PID `pid` of `Config.pair`, when it starts. -/
def pairProcess (pid : Pid) : Process :=
  (initCommunicators [1, 1] (getClusterRank pid) (getProcessRank pid)).getD ⟨pid, fun _ => none⟩

/-- The world of this process. -/
def pairWorld (pid : Pid) : Communicator := ((pairProcess pid).comms 0).getD nullCommunicator

/-- The run of `Config.pair` after both processes have called dup on the world
and the server has answered. -/
def dupAnswered : Application :=
  ((((start .pair System.pairServer).call 0 (pairProcess 0) (pairWorld 0) 0 .dup).call (setPid 1 0)
    (pairProcess (setPid 1 0)) (pairWorld (setPid 1 0)) 0 .dup).deliver .pair .insertion
      (Concurrent.dupOf 0 0) []).deliver .pair .insertion (Concurrent.dupOf (setPid 1 0) 1) []
    |>.perform .pair 0 (.create (Server.worldMembers .pair) fun com =>
      (Server.worldMembers .pair).map fun pid => ⟨pid, .dup com.number⟩) []

theorem reachable_dupAnswered : Reachable .pair .insertion dupAnswered := by
  refine ⟨System.pairServer, Server.initCommWorld_eq .pair, ?_⟩
  have hfirst := Relation.ReflTransGen.single (@Step.call .pair .insertion
    (start .pair System.pairServer) 0 (pairProcess 0) (pairWorld 0) 0 .dup rfl rfl rfl trivial)
  have hsecond := hfirst.tail (@Step.call .pair .insertion _ (setPid 1 0) (pairProcess (setPid 1 0))
    (pairWorld (setPid 1 0)) 0 .dup rfl rfl rfl trivial)
  have hstored := hsecond.tail (@Step.deliver .pair .insertion _ (Concurrent.dupOf 0 0) [] [] rfl
    rfl)
  have hbegun := hstored.tail (@Step.deliver .pair .insertion _
    (Concurrent.dupOf (setPid 1 0) 1) [] [] rfl rfl)
  exact hbegun.tail (@Step.perform .pair .insertion _ 0 _ _ rfl)

/-- The table of this process with the new communicator. -/
def pairDupped (pid : Pid) : Process :=
  ((pairProcess pid).conclude (pairWorld pid) .dup (.dup 3) (some [pid])).getD (pairProcess pid)

/-- A byte for the other process. -/
def pairByte : DataMessage := createDataMessage 0 opcodeData (setPid 1 0) 3 0 1 7 1 [1]

/-- The run in which the byte, sent on the new communicator, has arrived before
the other process has finished its call. -/
def byteArrived : Application :=
  let accepted := dupAnswered.accept 0 (pairDupped 0) []
  { accepted with gateways := [], arrived := Queues.push (fun _ => []) (setPid 1 0) [pairByte] }

theorem reachable_byteArrived : Reachable .pair .insertion byteArrived := by
  obtain ⟨server, hserver, hrun⟩ := reachable_dupAnswered
  refine ⟨server, hserver, ?_⟩
  have haccept := hrun.tail (@Step.accept .pair .insertion dupAnswered 0 (pairProcess 0) (pairWorld 0)
    ⟨0, .dup⟩ (.dup 3) [] [] (some [0]) rfl rfl rfl rfl (by nofun))
  have hsend := haccept.tail (@Step.send .pair .insertion _ 0 (pairDupped 0)
    (((pairDupped 0).comms 3).getD nullCommunicator) 3 UInt8 bytePacking opcodeData 1 [1] 7 pairByte
    rfl rfl rfl rfl)
  exact hsend.tail (@Step.forward .pair .insertion _ pairByte [] [] rfl)

/-- The run in which the other process has finished its call. -/
def byteTaken : Application := byteArrived.accept (setPid 1 0) (pairDupped (setPid 1 0)) []

theorem knownWhenTaken_byteTaken :
    byteTaken.KnownWhenTaken (setPid 1 0) ∧ byteTaken.phase (setPid 1 0) = .running ∧
      byteTaken.arrived (setPid 1 0) = [pairByte] := by
  obtain ⟨server, hserver, hrun⟩ := reachable_byteArrived
  have hreachable : Reachable .pair .insertion byteTaken :=
    ⟨server, hserver, hrun.tail (@Step.accept .pair .insertion byteArrived (setPid 1 0)
      (pairProcess (setPid 1 0)) (pairWorld (setPid 1 0)) ⟨0, .dup⟩ (.dup 3) [] []
      (some [setPid 1 0]) rfl rfl rfl rfl (by nofun))⟩
  exact ⟨knownWhenTaken_of_reachable hreachable (by decide) _, by decide, rfl⟩

end Application

end EsalsaMpi
