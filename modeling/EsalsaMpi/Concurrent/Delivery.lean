import EsalsaMpi.Concurrent.Invariant

/-!
# The server's part of a run

The delivery of a request and the jobs of an operation keep the invariant:
`inv_deliver` and `inv_perform`.  With the steps of the processes this gives
`Application.inv_of_reachable`.
-/

namespace EsalsaMpi

namespace Application

variable {cfg : Server.Config} {order : Server.HashOrder} {s s' : Application} {pid : Pid}
  {n : Nat} {c : Server.Communicator} {req : Server.CommunicatorRequest} {call : Call}

/-- A communicator with a request stored for a member that has sent it. -/
theorem SlotsInv.store {phase : Pid → Phase} (h : SlotsInv cfg phase n c)
    (hfree : c.messages[req.rank]? = some none) (hroom : c.participants + 1 ≠ c.size) (hcomm : req.communicator = n)
    (hmember : c.tables.members[req.rank]? = some req.source)
    (hlegal : req.operation.Legal c.tables.members)
    (hsent : phase req.source = .sent ⟨req.communicator, req.operation⟩) :
    SlotsInv cfg (Function.update phase req.source (.stored ⟨n, req.operation⟩)) n
      (c.store req) where
  valid := h.valid
  tables := h.tables
  participants := by
    obtain ⟨hlt, hnone⟩ := List.getElem?_eq_some_iff.mp hfree
    simp [Server.Communicator.store, List.countP_set, hlt, hnone, h.participants]
  room := by
    right
    have hlt := (List.getElem?_eq_some_iff.mp hmember).1
    have hsize : (c.store req).size = c.size := rfl
    have hstored : (c.store req).participants = c.participants + 1 := rfl
    rw [hsize, hstored]
    rcases h.room with hempty | hroom'
    · rw [hempty] at hlt
      exact absurd hlt (Nat.not_lt_zero _)
    · omega
  slot := by
    intro r m hm
    by_cases hr : r = req.rank
    · have hlt := (List.getElem?_eq_some_iff.mp hfree).1
      have heq : req = m := by simpa [Server.Communicator.store, hr, hlt] using hm
      subst heq
      exact ⟨hcomm, hr ▸ hmember, Function.update_self _ _ _, hlegal⟩
    · have hold : c.messages[r]? = some (some m) := by
        rw [← hm, Server.Communicator.store, List.getElem?_set_ne (Ne.symm hr)]
      obtain ⟨hcomm', hmember', hstored, hlegal'⟩ := h.slot r m hold
      refine ⟨hcomm', hmember', ?_, hlegal'⟩
      rw [Function.update_of_ne _ _ _]
      · exact hstored
      · intro heq
        rw [heq, hsent] at hstored
        cases hstored

/-- The last request completes a round. -/
theorem SlotsInv.isRound {phase : Pid → Phase} (h : SlotsInv cfg phase n c) (hkept : c.WellKept)
    (hfree : c.messages[req.rank]? = some none) (hfull : c.participants + 1 = c.size)
    (hmember : c.tables.members[req.rank]? = some req.source) :
    (c.store req).IsRound (c.store req).requests ∧
      ∀ m ∈ (c.store req).requests, m = req ∨ ∃ r : Nat, c.messages[r]? = some (some m) := by
  obtain ⟨hlt, hnone⟩ := List.getElem?_eq_some_iff.mp hfree
  have hcount : (c.store req).messages.countP Option.isSome = (c.store req).messages.length := by
    have hstore : (c.store req).messages.countP Option.isSome = c.participants + 1 := by
      simp [Server.Communicator.store, List.countP_set, hlt, hnone, h.participants]
    rw [hstore, hfull, ← hkept.length_messages, Server.Communicator.store, List.length_set]
  have hslots : ∀ slot ∈ (c.store req).messages, slot.isSome = true :=
    List.countP_eq_length.mp hcount
  have hrequest : ∀ (r : Nat) m, (c.store req).requests[r]? = some m →
      (r = req.rank ∧ m = req) ∨ c.messages[r]? = some (some m) := by
    intro r m hm
    rw [Server.Session.getElem?_requests hslots, Option.join_eq_some_iff] at hm
    by_cases hr : r = req.rank
    · left
      have heq : req = m := by simpa [Server.Communicator.store, hr, hlt] using hm
      exact ⟨hr, heq.symm⟩
    · right
      rw [← hm, Server.Communicator.store, List.getElem?_set_ne (Ne.symm hr)]
  refine ⟨⟨?_, ?_, ?_⟩, ?_⟩
  · rw [Server.Communicator.requests, List.length_filterMap_eq_countP]
    have hid : List.countP (fun a => (id a).isSome) (c.store req).messages =
        (c.store req).messages.countP Option.isSome := rfl
    rw [hid, hcount, Server.Communicator.store, List.length_set, hkept.length_messages]
    rfl
  · intro r m hm
    rcases hrequest r m hm with ⟨hr, rfl⟩ | hold
    · exact hr.symm
    · exact (hkept.slot r m hold).1
  · intro r m hm
    rcases hrequest r m hm with ⟨rfl, rfl⟩ | hold
    · exact hmember
    · exact (h.slot r m hold).2.1
  · intro m hm
    obtain ⟨r, hr⟩ := List.getElem?_of_mem hm
    rcases hrequest r m hr with ⟨_, rfl⟩ | hold
    · exact Or.inl rfl
    · exact Or.inr ⟨r, hold⟩

/-- **How the delivery of a request ends**: the server does not know its handle,
stores it, or begins an operation. -/
inductive DeliveryCase (s : Application) (req : Server.CommunicatorRequest) : Prop where
  | dropped (hreserved : ReservedHandle req.communicator)
      (hunknown : s.base.server[req.communicator]? = some none)
  | stored (c : Server.Communicator) (hlive : s.base.server[req.communicator]? = some (some c))
      (hfree : c.messages[req.rank]? = some none)
      (hmember : c.tables.members[req.rank]? = some req.source)
      (hlegal : req.operation.Legal c.tables.members) (hroom : c.participants + 1 ≠ c.size)
  | begun (c : Server.Communicator) (hlive : s.base.server[req.communicator]? = some (some c))
      (hfree : c.messages[req.rank]? = some none)
      (hmember : c.tables.members[req.rank]? = some req.source)
      (hlegal : req.operation.Legal c.tables.members) (hfull : c.participants + 1 = c.size)

/-- A member's slot is free when its request arrives. -/
theorem deliveryCase (hinv : Inv cfg s)
    (hsent : s.phase req.source = .sent ⟨req.communicator, req.operation⟩)
    (hknown : ReservedHandle req.communicator ∨ ∃ t, s.Live req.communicator t ∧
      t.members[req.rank]? = some req.source ∧ req.operation.Legal t.members) :
    DeliveryCase s req := by
  rcases hknown with hreserved | ⟨t, ⟨c, hlive, rfl⟩, hmember, hlegal⟩
  · refine .dropped hreserved ?_
    rcases hreserved with h | h <;> rw [h]
    · exact hinv.free.1
    · exact hinv.free.2
  · have hlt : req.rank < c.messages.length := by
      rw [(hinv.base.kept _ c hlive).length_messages]
      exact (List.getElem?_eq_some_iff.mp hmember).1
    have hfree : c.messages[req.rank]? = some none := by
      rw [List.getElem?_eq_getElem hlt, Option.some.injEq, Option.eq_none_iff_forall_ne_some]
      intro m hm
      have hslot : c.messages[req.rank]? = some (some m) := by
        rw [List.getElem?_eq_getElem hlt, hm]
      obtain ⟨_, hmember', hstored, _⟩ := (hinv.slots _ c hlive).slot _ m hslot
      rw [hmember, Option.some.injEq] at hmember'
      rw [← hmember', hsent] at hstored
      cases hstored
    by_cases hfull : c.participants + 1 = c.size
    · exact .begun c hlive hfree hmember hlegal hfull
    · exact .stored c hlive hfree hmember hlegal hfull

section Cases

variable (hsent : s.phase req.source = .sent call)
include hsent

/-- The phases when a request is dropped. -/
theorem delivery_dropped (hunknown : s.base.server[req.communicator]? = some none) :
    s.delivery cfg order req = ⟨Function.update s.phase req.source (.lost call), 0, [req]⟩ := by
  rw [delivery, hunknown, hsent]
  rfl

/-- The phases when a request is stored. -/
theorem delivery_stored (hlive : s.base.server[req.communicator]? = some (some c))
    (hfree : c.messages[req.rank]? = some none) (hroom : c.participants + 1 ≠ c.size) :
    s.delivery cfg order req = ⟨Function.update s.phase req.source (.stored call), 0, []⟩ := by
  simp only [delivery, hlive, hfree, if_neg hroom, hsent]
  rfl

end Cases

/-- The phases when an operation begins. -/
theorem delivery_begun (hlive : s.base.server[req.communicator]? = some (some c))
    (hfree : c.messages[req.rank]? = some none) (hfull : c.participants + 1 = c.size) :
    s.delivery cfg order req =
      { phase := fun pid =>
          if pid ∈ (c.store req).requests.map (·.source) then
            (s.phase pid).moveTo
              (if pid ∈ ((c.store req).jobs cfg order (c.store req).requests).flatMap
                Server.Job.audience then .working else .lost)
          else
            s.phase pid
        begun := 1
        dropped := [] } := by
  simp only [delivery, hlive, hfree, if_pos hfull]

/-- Only the process whose request is delivered moves. -/
theorem moves_update {phase : Pid → Phase} {q : Pid} {ph : Phase}
    (hph : ∃ call, ph = .stored call ∨ ph = .working call ∨ ph = .lost call) :
    Moves phase (Function.update phase q ph) q :=
  ⟨by rwa [Function.update_self], fun _ hp => Or.inl (Function.update_of_ne hp _ _)⟩

/-- A request on a handle that the server does not know is dropped. -/
theorem inv_dropped (hinv : Inv cfg s) (hrequest : s.base.requests req.source = [req])
    (hmonitor : s.base.work req.communicator = []) (hsent : s.phase req.source = .sent call)
    (hunknown : s.base.server[req.communicator]? = some none) :
    Inv cfg (s.deliver cfg order req []) := by
  have hadmit : Server.admitRequest cfg order s.base.server req = (s.base.server, []) := by
    rw [Server.admitRequest, hunknown]
  have hbase : (s.base.deliver cfg order req []).Inv :=
    @Concurrent.inv_deliver cfg order s.base hinv.base req [] [] hrequest hmonitor
  have hmoves : Moves s.phase (s.delivery cfg order req).phase req.source := by
    rw [delivery_dropped hsent hunknown]
    exact moves_update ⟨call, Or.inr (Or.inr rfl)⟩
  have hserver : (s.base.deliver cfg order req []).server = s.base.server := by
    rw [Concurrent.deliver, hadmit]
  have hwork : (s.base.deliver cfg order req []).work = s.base.work := by
    rw [Concurrent.deliver, hadmit]
    simp only
    rw [← hmonitor, Function.update_eq_self]
  have hother : ∀ q, s.phase q ≠ .sent call →
      (s.delivery cfg order req).phase q = s.phase q := by
    intro q hq
    rw [delivery_dropped hsent hunknown]
    refine Function.update_of_ne ?_ _ _
    intro heq
    exact hq (heq ▸ hsent)
  refine inv_moves hinv hsent hmoves hbase ?_ ?_ ?_ rfl rfl rfl ?_ ?_
  · rw [hserver]
    exact hinv.free
  · intro n t
    rw [hserver]
    rfl
  · rw [hserver]
  · intro n c hc
    rw [hserver] at hc
    exact (hinv.slots n c hc).congr fun q op hq => hother q (by rw [hq]; rintro ⟨⟩)
  · intro n
    rw [hwork]
    exact (hinv.work n).congr fun q op hq => hother q (by rw [hq]; rintro ⟨⟩)

/-- The slots of `EMPI_COMM_SELF` and `EMPI_COMM_NULL` stay empty. -/
theorem free_set (hinv : Inv cfg s) (hlive : s.base.server[n]? = some (some c))
    {slot : Option Server.Communicator} :
    (s.base.server.set n slot)[1]? = some none ∧ (s.base.server.set n slot)[2]? = some none := by
  have hne : ∀ i, s.base.server[i]? = some none → n ≠ i := by
    intro i hi heq
    rw [heq, hi] at hlive
    cases hlive
  rw [List.getElem?_set_ne (hne 1 hinv.free.1), List.getElem?_set_ne (hne 2 hinv.free.2)]
  exact hinv.free

/-- A request is stored until the others have arrived. -/
theorem inv_stored (hinv : Inv cfg s) (hrequest : s.base.requests req.source = [req])
    (hmonitor : s.base.work req.communicator = [])
    (hsent : s.phase req.source = .sent ⟨req.communicator, req.operation⟩)
    (hlive : s.base.server[req.communicator]? = some (some c))
    (hfree : c.messages[req.rank]? = some none)
    (hmember : c.tables.members[req.rank]? = some req.source)
    (hlegal : req.operation.Legal c.tables.members) (hroom : c.participants + 1 ≠ c.size) :
    Inv cfg (s.deliver cfg order req []) := by
  have hnumber := hinv.base.numbered _ _ hlive
  have hlt := (List.getElem?_eq_some_iff.mp hlive).1
  have hadmit : Server.admitRequest cfg order s.base.server req =
      (s.base.server.set req.communicator (some (c.store req)), []) := by
    have hstored : ¬ (c.store req).participants = c.size := hroom
    simp only [Server.admitRequest, hlive, Server.Communicator.admitRequest, hfree,
      if_neg hstored, hnumber]
  have hbase : (s.base.deliver cfg order req []).Inv :=
    @Concurrent.inv_deliver cfg order s.base hinv.base req [] [] hrequest hmonitor
  have hphase := @delivery_stored cfg order _ _ _ _ hsent hlive hfree hroom
  have hmoves : Moves s.phase (s.delivery cfg order req).phase req.source := by
    rw [hphase]
    exact moves_update ⟨_, Or.inl rfl⟩
  have hserver : (s.base.deliver cfg order req []).server =
      s.base.server.set req.communicator (some (c.store req)) := by
    rw [Concurrent.deliver, hadmit]
  have hwork : (s.base.deliver cfg order req []).work = s.base.work := by
    rw [Concurrent.deliver, hadmit]
    simp only
    rw [← hmonitor, Function.update_eq_self]
  have hother : ∀ q, s.phase q ≠ .sent ⟨req.communicator, req.operation⟩ →
      (s.delivery cfg order req).phase q = s.phase q := by
    intro q hq
    rw [hphase]
    refine Function.update_of_ne ?_ _ _
    intro heq
    exact hq (heq ▸ hsent)
  refine inv_moves hinv hsent hmoves hbase ?_ ?_ ?_ rfl rfl rfl ?_ ?_
  · rw [hserver]
    exact free_set hinv hlive
  · intro n t
    rw [hserver]
    exact @live_set s _ c (c.store req) hlive rfl n t
  · rw [hserver, List.length_set]
  · intro n c' hc'
    rw [hserver] at hc'
    by_cases hn : n = req.communicator
    · subst hn
      rw [List.getElem?_set_self hlt] at hc'
      cases hc'
      rw [hphase]
      exact (hinv.slots _ c hlive).store hfree hroom rfl hmember hlegal hsent
    · rw [List.getElem?_set_ne (Ne.symm hn)] at hc'
      exact (hinv.slots n c' hc').congr fun q op hq => hother q (by rw [hq]; rintro ⟨⟩)
  · intro n
    rw [hwork]
    exact (hinv.work n).congr fun q op hq => hother q (by rw [hq]; rintro ⟨⟩)

/-- A process that has sent the last request of a round, or whose request is
stored, is worked on or has been left without an answer. -/
theorem moves_begun (hinv : Inv cfg s)
    (hsent : s.phase req.source = .sent ⟨req.communicator, req.operation⟩)
    (hlive : s.base.server[req.communicator]? = some (some c))
    (hfree : c.messages[req.rank]? = some none)
    (hmember : c.tables.members[req.rank]? = some req.source)
    (hfull : c.participants + 1 = c.size) :
    (∀ m ∈ (c.store req).requests, ∀ phase, (s.phase m.source).moveTo phase =
        phase ⟨req.communicator, m.operation⟩) ∧
      Moves s.phase (s.delivery cfg order req).phase req.source := by
  have hslots := hinv.slots _ c hlive
  obtain ⟨hround, hrequests⟩ :=
    hslots.isRound (hinv.base.kept _ c hlive) hfree hfull hmember
  have hmove : ∀ m ∈ (c.store req).requests, ∀ phase, (s.phase m.source).moveTo phase =
      phase ⟨req.communicator, m.operation⟩ := by
    intro m hm phase
    rcases hrequests m hm with rfl | ⟨r, hr⟩
    · rw [hsent]
      rfl
    · rw [(hslots.slot r m hr).2.2.1]
      rfl
  have hself : req.source ∈ (c.store req).requests.map (·.source) := by
    rw [hround.map_source]
    exact List.mem_of_getElem? hmember
  refine ⟨hmove, ⟨?_, ?_⟩⟩
  · refine ⟨⟨req.communicator, req.operation⟩, ?_⟩
    rw [delivery_begun hlive hfree hfull]
    simp only [if_pos hself, hsent]
    split
    · exact Or.inr (Or.inl rfl)
    · exact Or.inr (Or.inr rfl)
  · intro q hq
    rw [delivery_begun hlive hfree hfull]
    simp only
    split
    · rename_i hmem
      right
      obtain ⟨m, hm, rfl⟩ := List.mem_map.mp hmem
      rcases hrequests m hm with rfl | ⟨r, hr⟩
      · exact absurd rfl hq
      · refine ⟨_, ⟨req.communicator, m.operation⟩, (hslots.slot r m hr).2.2.1, ?_⟩
        rw [hmove m hm]
        split
        · exact Or.inl rfl
        · exact Or.inr rfl
    · exact Or.inl rfl

/-- The last request of a round begins an operation. -/
theorem inv_begun (hinv : Inv cfg s) (hrequest : s.base.requests req.source = [req])
    (hmonitor : s.base.work req.communicator = [])
    (hsent : s.phase req.source = .sent ⟨req.communicator, req.operation⟩)
    (hlive : s.base.server[req.communicator]? = some (some c))
    (hfree : c.messages[req.rank]? = some none)
    (hmember : c.tables.members[req.rank]? = some req.source)
    (hlegal : req.operation.Legal c.tables.members) (hfull : c.participants + 1 = c.size) :
    Inv cfg (s.deliver cfg order req []) := by
  have hnumber := hinv.base.numbered _ _ hlive
  have hlt := (List.getElem?_eq_some_iff.mp hlive).1
  have hslots := hinv.slots _ c hlive
  obtain ⟨hround, hrequests⟩ := hslots.isRound (hinv.base.kept _ c hlive) hfree hfull hmember
  obtain ⟨hmove, hmoves⟩ := @moves_begun cfg order s c req hinv hsent hlive hfree hmember hfull
  have hlegals : ∀ m ∈ (c.store req).requests, m.operation.Legal (c.store req).tables.members := by
    intro m hm
    rcases hrequests m hm with rfl | ⟨r, hr⟩
    · exact hlegal
    · exact (hslots.slot r m hr).2.2.2
  have hadmit : Server.admitRequest cfg order s.base.server req =
      (s.base.server.set req.communicator (some (c.store req).reset),
        (c.store req).jobs cfg order (c.store req).requests) := by
    have hstored : (c.store req).participants = c.size := hfull
    simp only [Server.admitRequest, hlive, Server.Communicator.admitRequest, hfree,
      if_pos hstored, hnumber]
  have hbase : (s.base.deliver cfg order req []).Inv :=
    @Concurrent.inv_deliver cfg order s.base hinv.base req [] [] hrequest hmonitor
  have hserver : (s.base.deliver cfg order req []).server =
      s.base.server.set req.communicator (some (c.store req).reset) := by
    rw [Concurrent.deliver, hadmit]
  have hwork : (s.base.deliver cfg order req []).work = Function.update s.base.work
      req.communicator ((c.store req).jobs cfg order (c.store req).requests) := by
    rw [Concurrent.deliver, hadmit]
  have hphase := @delivery_begun cfg order s c req hlive hfree hfull
  -- whoever works or is stored elsewhere stays as it is
  have hother : ∀ q, (∀ m ∈ (c.store req).requests, m.source ≠ q) →
      (s.delivery cfg order req).phase q = s.phase q := by
    intro q hq
    rw [hphase]
    refine if_neg ?_
    intro hmem
    obtain ⟨m, hm, heq⟩ := List.mem_map.mp hmem
    exact hq m hm heq
  have hwaiting : ∀ m ∈ (c.store req).requests,
      s.phase m.source = .sent ⟨req.communicator, m.operation⟩ ∨
        s.phase m.source = .stored ⟨req.communicator, m.operation⟩ := by
    intro m hm
    rcases hrequests m hm with rfl | ⟨r, hr⟩
    · exact Or.inl hsent
    · exact Or.inr (hslots.slot r m hr).2.2.1
  refine inv_moves hinv hsent hmoves hbase ?_ ?_ ?_ rfl rfl rfl ?_ ?_
  · rw [hserver]
    exact free_set hinv hlive
  · intro n t
    rw [hserver]
    exact @live_set s _ c (c.store req).reset hlive rfl n t
  · rw [hserver, List.length_set]
  · intro n c' hc'
    rw [hserver] at hc'
    by_cases hn : n = req.communicator
    · subst hn
      rw [List.getElem?_set_self hlt] at hc'
      cases hc'
      refine ⟨hslots.valid, hslots.tables, ?_, ?_, ?_⟩
      · simp [Server.Communicator.reset, List.countP_replicate]
      · right
        exact (List.getElem?_eq_some_iff.mp hmember).1.trans_le' (Nat.zero_le _)
      · intro r m hm
        simp [Server.Communicator.reset, List.getElem?_replicate] at hm
    · rw [List.getElem?_set_ne (Ne.symm hn)] at hc'
      refine (hinv.slots n c' hc').congr fun q op hq => hother q ?_
      intro m hm heq
      rcases hwaiting m hm with h | h <;> rw [heq, hq] at h <;> cases h
      exact hn rfl
  · intro n
    rw [hwork]
    by_cases hn : n = req.communicator
    · subst hn
      rw [Function.update_self]
      constructor
      · by_cases hjobs : (c.store req).jobs cfg order (c.store req).requests = []
        · rw [hjobs]
          exact List.nodup_nil
        · have hagree := Server.agree_of_jobs_ne_nil hjobs
          exact (Server.audience_perm hround hslots.valid hslots.tables hlegals
            hagree).nodup_iff.mpr hslots.valid.nodup
      · right
        refine ⟨c.tables, (c.store req).requests, ⟨c, hlive, rfl⟩,
          Server.jobs_serve hround hslots.valid hslots.tables hlegals, ?_⟩
        intro m hm
        have hmem : m.source ∈ (c.store req).requests.map (·.source) := List.mem_map_of_mem hm
        refine ⟨hslots.valid.application _ ?_, ?_⟩
        · have hmember' := hround.map_source ▸ hmem
          exact hmember'
        · intro haudience
          rw [hphase]
          simp only [if_pos hmem, if_pos haudience]
          exact hmove m hm _
    · rw [Function.update_of_ne hn]
      refine (hinv.work n).congr fun q op hq => hother q ?_
      intro m hm heq
      rcases hwaiting m hm with h | h <;> rw [heq, hq] at h <;> cases h

theorem inv_deliver (hinv : Inv cfg s) {before after : List Server.CommunicatorRequest}
    (hrequest : s.base.requests req.source = before ++ req :: after)
    (hmonitor : s.base.work req.communicator = []) :
    Inv cfg (s.deliver cfg order req (before ++ after)) := by
  obtain ⟨rfl, rfl, hsent, hknown⟩ := sent_of_request hinv hrequest
  cases deliveryCase hinv hsent hknown with
  | dropped hreserved hunknown => exact inv_dropped hinv hrequest hmonitor hsent hunknown
  | stored c hlive hfree hmember hlegal hroom =>
      exact inv_stored hinv hrequest hmonitor hsent hlive hfree hmember hlegal hroom
  | begun c hlive hfree hmember hlegal hfull =>
      exact inv_begun hinv hrequest hmonitor hsent hlive hfree hmember hlegal hfull

/-- The one reply for a process among replies to different processes. -/
theorem replies_for {ms : List Server.Reply} (hnodup : (ms.map Server.Reply.destination).Nodup)
    {m : Server.Reply} (hm : m ∈ ms) :
    (ms.filter fun m' => m'.destination = m.destination).map (·.body) = [m.body] := by
  induction ms with
  | nil => cases hm
  | cons first ms ih =>
      rw [List.map_cons, List.nodup_cons] at hnodup
      rcases List.mem_cons.mp hm with rfl | hm
      · have hnone : ms.filter (fun m' => m'.destination = m.destination) = [] := by
          rw [List.filter_eq_nil_iff]
          intro m' hm' heq
          exact hnodup.1 (of_decide_eq_true heq ▸ List.mem_map_of_mem hm')
        rw [List.filter_cons_of_pos (by simp), hnone]
        rfl
      · have hne : first.destination ≠ m.destination := fun heq =>
          hnodup.1 (heq ▸ List.mem_map_of_mem hm)
        rw [List.filter_cons_of_neg (by simpa using hne)]
        exact ih hnodup.2 hm

/-- No reply for the others. -/
theorem enqueue_of_notMem (replies : Pid → List Server.ReplyBody) {ms : List Server.Reply}
    (hpid : pid ∉ ms.map Server.Reply.destination) :
    Concurrent.enqueue replies ms pid = replies pid := by
  have hnone : ms.filter (fun m => m.destination = pid) = [] := by
    rw [List.filter_eq_nil_iff]
    intro m hm heq
    exact hpid (of_decide_eq_true heq ▸ List.mem_map_of_mem hm)
  rw [Concurrent.enqueue, hnone, List.map_nil, List.append_nil]

/-- A new communicator has no requests. -/
theorem SlotsInv.fresh {phase : Pid → Phase} {pids : List Pid} (h : cfg.Valid pids) :
    SlotsInv cfg phase n (Server.Communicator.fresh n (Server.tablesSpec pids)) where
  valid := h
  tables := rfl
  participants := by simp [Server.Communicator.fresh, List.countP_replicate]
  room := by
    rcases Nat.eq_zero_or_pos pids.length with hzero | hpos
    · exact Or.inl (List.length_eq_zero_iff.mp hzero)
    · exact Or.inr hpos
  slot := by
    intro r m hm
    simp [Server.Communicator.fresh, List.getElem?_replicate] at hm

/-- The processes that a job answers were worked on. -/
theorem working_of_audience (hinv : Inv cfg s) {job : Server.Job} {jobs : List Server.Job}
    (hwork : s.base.work n = job :: jobs) :
    ∃ t requests server ms, s.Live n t ∧ job.run cfg s.base.server = some (server, ms) ∧
      job.Effect cfg s.base.server t requests server ms ∧
      (∀ job' ∈ jobs, job'.Serves cfg t requests) ∧
      (∀ req ∈ requests, cfg.IsApplication req.source ∧
        (req.source ∈ (job :: jobs).flatMap Server.Job.audience →
          s.phase req.source = .working ⟨n, req.operation⟩)) ∧
      ((job :: jobs).flatMap Server.Job.audience).Nodup := by
  have hworks := hinv.work n
  rw [hwork] at hworks
  rcases hworks.serves with hnil | ⟨t, requests, hl, hserves, hrequests⟩
  · cases hnil
  · obtain ⟨server, ms, hrun, heffect⟩ := Server.run_of_serves (hserves job List.mem_cons_self)
      (fun req hreq => (hrequests req hreq).1) s.base.server
    exact ⟨t, requests, server, ms, hl, hrun, heffect,
      fun job' hjob' => hserves job' (List.mem_cons_of_mem _ hjob'), hrequests, hworks.nodup⟩

/-- The phases after the replies `ms` to processes whose requests on `n` were
worked on. -/
structure Replied (phase phase' : Pid → Phase) (n : Nat) (ms : List Server.Reply) : Prop where
  self : ∀ m ∈ ms, ∃ op, phase m.destination = .working ⟨n, op⟩ ∧
    phase' m.destination = .answered ⟨n, op⟩
  others : ∀ q, q ∉ ms.map Server.Reply.destination → phase' q = phase q

section Replied

variable {phase phase' : Pid → Phase} {ms : List Server.Reply}

/-- Who is not worked on for `n` keeps its phase. -/
theorem Replied.of_ne (h : Replied phase phase' n ms) {q : Pid}
    (hq : ∀ op, phase q ≠ .working ⟨n, op⟩) : phase' q = phase q := by
  refine h.others q fun hmem => ?_
  obtain ⟨m, hm, rfl⟩ := List.mem_map.mp hmem
  obtain ⟨op, hop, _⟩ := h.self m hm
  exact hq op hop

theorem Replied.requests {live : Nat → Tables → Prop} {q : Pid}
    {requests : List Server.CommunicatorRequest} (h : Replied phase phase' n ms)
    (hrequests : RequestsInv live q requests (phase q)) :
    RequestsInv live q requests (phase' q) := by
  by_cases hq : q ∈ ms.map Server.Reply.destination
  · obtain ⟨m, hm, rfl⟩ := List.mem_map.mp hq
    obtain ⟨op, hworking, hanswered⟩ := h.self m hm
    rw [hworking] at hrequests
    rw [hanswered]
    exact hrequests
  · rwa [h.others q hq]

/-- Every one of `ms` is the reply its destination waits for. -/
theorem Replied.replies {live live' : Nat → Tables → Prop} {replies : Pid → List Server.ReplyBody}
    {t : Tables} (h : Replied phase phase' n ms)
    (hreplies : ∀ q, RepliesInv live q (replies q) (phase q))
    (hlive : ∀ i t, live i t → live' i t) (hl : live n t)
    (hnodup : (ms.map Server.Reply.destination).Nodup)
    (hsuits : ∀ m ∈ ms, ∀ op, phase m.destination = .working ⟨n, op⟩ →
      Server.Suits live' t m.destination op m.body) (q : Pid) :
    RepliesInv live' q (Concurrent.enqueue replies ms q) (phase' q) := by
  have hold := hreplies q
  by_cases hq : q ∈ ms.map Server.Reply.destination
  · obtain ⟨m, hm, rfl⟩ := List.mem_map.mp hq
    obtain ⟨op, hworking, hanswered⟩ := h.self m hm
    rw [hworking] at hold
    rw [hanswered]
    refine ⟨m.body, t, ?_, hlive _ _ hl, hsuits m hm op hworking⟩
    rw [Concurrent.enqueue, show replies m.destination = [] from hold, List.nil_append,
      replies_for hnodup hm]
  · rw [enqueue_of_notMem replies hq, h.others q hq]
    exact hold.mono hlive

end Replied

/-- A slot of the list with one more communicator. -/
theorem getElem?_concat_cases {server : Server.State} {i : Nat} {c' : Server.Communicator}
    (h : (server ++ [some c'])[i]? = some (some c)) :
    server[i]? = some (some c) ∨ i = server.length ∧ c = c' := by
  by_cases hi : i < server.length
  · rw [List.getElem?_append_left hi] at h
    exact Or.inl h
  · have hlt := (List.getElem?_eq_some_iff.mp h).1
    rw [List.length_append, List.length_singleton] at hlt
    obtain rfl : i = server.length := by omega
    rw [List.getElem?_concat_length] at h
    cases h
    exact Or.inr ⟨rfl, rfl⟩

/-- What a process was told before is still on its way. -/
theorem mem_enqueue {replies : Pid → List Server.ReplyBody} {ms : List Server.Reply} {q : Pid}
    {body : Server.ReplyBody} (h : body ∈ replies q) :
    body ∈ Concurrent.enqueue replies ms q :=
  List.mem_append_left _ h

/-- A reply is on its way to its destination. -/
theorem mem_enqueue_self {replies : Pid → List Server.ReplyBody} {ms : List Server.Reply}
    {m : Server.Reply} (h : m ∈ ms) : m.body ∈ Concurrent.enqueue replies ms m.destination :=
  List.mem_append_right _ (List.mem_map_of_mem (List.mem_filter.mpr ⟨h, by simp⟩))

/-- The replies of a job are for processes whose requests were worked on. -/
theorem replied_perform {job : Server.Job} {jobs : List Server.Job} {t : Tables}
    {requests : List Server.CommunicatorRequest} {server : Server.State} {ms : List Server.Reply}
    (hrun : job.run cfg s.base.server = some (server, ms))
    (heffect : job.Effect cfg s.base.server t requests server ms)
    (hrequests : ∀ req ∈ requests, cfg.IsApplication req.source ∧
      (req.source ∈ (job :: jobs).flatMap Server.Job.audience →
        s.phase req.source = .working ⟨n, req.operation⟩)) :
    (∀ m ∈ ms, ∃ op, s.phase m.destination = .working ⟨n, op⟩ ∧
      Server.Suits (fun n t => ∃ c, server[n]? = some (some c) ∧ c.tables = t) t m.destination op
        m.body) ∧
      Replied s.phase (s.perform cfg n job jobs).phase n ms := by
  have hms : ∀ m ∈ ms, ∃ op, s.phase m.destination = .working ⟨n, op⟩ ∧
      Server.Suits (fun n t => ∃ c, server[n]? = some (some c) ∧ c.tables = t) t m.destination op
        m.body := by
    intro m hm
    obtain ⟨req, hreq, hsource, hsuits⟩ := heffect.suits m hm
    refine ⟨req.operation, ?_, hsuits⟩
    rw [← hsource]
    refine (hrequests req hreq).2 ?_
    rw [List.flatMap_cons, ← heffect.destinations, hsource]
    exact List.mem_append_left _ (List.mem_map_of_mem hm)
  refine ⟨hms, ?_⟩
  simp only [perform, hrun]
  refine ⟨?_, fun q hq => if_neg hq⟩
  intro m hm
  obtain ⟨op, hworking, _⟩ := hms m hm
  refine ⟨op, hworking, ?_⟩
  rw [if_pos (List.mem_map_of_mem hm), hworking]
  rfl

theorem inv_perform (hinv : Inv cfg s) {job : Server.Job} {jobs : List Server.Job}
    (hwork : s.base.work n = job :: jobs) : Inv cfg (s.perform cfg n job jobs) := by
  obtain ⟨t, requests, server, ms, hl, hrun, heffect, hserves, hrequests, hnodup⟩ :=
    working_of_audience hinv hwork
  have hbase : (s.base.perform cfg n job jobs).Inv := Concurrent.inv_perform hinv.base hwork
  rw [List.flatMap_cons, List.nodup_append] at hnodup
  obtain ⟨hdistinct, hnodup, hdisjoint⟩ := hnodup
  have haudience : (ms.map Server.Reply.destination).Nodup := by
    rw [heffect.destinations]
    exact hdistinct
  obtain ⟨hms, hreplied⟩ := @replied_perform cfg s n job jobs t requests server ms hrun heffect
    hrequests
  have hold : ∀ i, i < s.base.server.length → server[i]? = s.base.server[i]? := by
    intro i hi
    rcases heffect.server with rfl | ⟨pids, _, rfl, _⟩
    · rfl
    · exact List.getElem?_append_left hi
  have hlive : ∀ i t, s.Live i t → ∃ c, server[i]? = some (some c) ∧ c.tables = t := by
    intro i t hl
    obtain ⟨c, hc, ht⟩ := hl
    exact ⟨c, (hold i (List.getElem?_eq_some_iff.mp hc).1).trans hc, ht⟩
  have hsplit : s.perform cfg n job jobs = { s with
      base := { s.base with
        server := server
        work := Function.update s.base.work n jobs
        replies := Concurrent.enqueue s.base.replies ms
        handedOut := s.base.handedOut ++ Concurrent.created cfg s.base.server job }
      phase := (s.perform cfg n job jobs).phase
      answers := (s.perform cfg n job jobs).answers } := by
    simp only [perform, Concurrent.perform, hrun]
  have hbase' : ({ s.base with
      server := server
      work := Function.update s.base.work n jobs
      replies := Concurrent.enqueue s.base.replies ms
      handedOut := s.base.handedOut ++ Concurrent.created cfg s.base.server job } :
      Concurrent).Inv := by
    simpa only [Concurrent.perform, hrun] using hbase
  rw [hsplit]
  refine ⟨hbase', ?_, ?_, ?_, ?_, ?_, ?_, ?_⟩
  · have hfree : ∀ i, s.base.server[i]? = some none → server[i]? = some none := fun i hi =>
      (hold i (List.getElem?_eq_some_iff.mp hi).1).trans hi
    exact ⟨hfree 1 hinv.free.1, hfree 2 hinv.free.2⟩
  · intro i c hc
    have hcongr : s.base.server[i]? = some (some c) →
        SlotsInv cfg (s.perform cfg n job jobs).phase i c := fun hi =>
      (hinv.slots i c hi).congr fun q op hq => hreplied.of_ne fun op' => by rw [hq]; rintro ⟨⟩
    rcases heffect.server with rfl | ⟨pids, hvalid, rfl, _⟩
    · exact hcongr hc
    · rcases getElem?_concat_cases hc with hi | ⟨rfl, rfl⟩
      · exact hcongr hi
      · exact SlotsInv.fresh hvalid
  · exact fun q p hp => (hinv.process q p hp).mono hlive
  · exact fun q => hreplied.requests ((hinv.requests q).mono hlive)
  · refine hreplied.replies hinv.replies hlive hl haudience ?_
    intro m hm op hop
    obtain ⟨op', hop', hsuits⟩ := hms m hm
    rw [hop] at hop'
    cases hop'
    exact hsuits
  · intro i
    by_cases hi : i = n
    · subst hi
      simp only [Function.update_self]
      refine ⟨hnodup, Or.inr ⟨t, requests, hlive _ _ hl, hserves, ?_⟩⟩
      intro req hreq
      refine ⟨(hrequests req hreq).1, fun hmem => ?_⟩
      have hworking := (hrequests req hreq).2
        (by rw [List.flatMap_cons]; exact List.mem_append_right _ hmem)
      refine (hreplied.others _ ?_).trans hworking
      intro hmem'
      rw [heffect.destinations] at hmem'
      exact hdisjoint _ hmem' _ hmem rfl
    · simp only [Function.update_of_ne hi]
      refine ((hinv.work i).mono hlive).congr fun q op hq => hreplied.of_ne ?_
      intro op' hq'
      rw [hq] at hq'
      cases hq'
      exact hi rfl
  · intro i t' hl' q hq p hp hne hmax
    have hended : s.phase q ≠ .ended := by
      intro hended
      rw [hreplied.of_ne (by rw [hended]; rintro _ ⟨⟩)] at hne
      exact hne hended
    have hmax' : s.base.server.length ≤ maxCommunicators := by
      rcases heffect.server with rfl | ⟨pids, _, rfl, _⟩
      · exact hmax
      · exact Nat.le_of_succ_le (by simpa using hmax)
    have hknown : s.Live i t' → (p.comms i).isSome ∨ ∃ call body,
        (s.perform cfg n job jobs).phase q = .answered call ∧
          body ∈ Concurrent.enqueue s.base.replies ms q ∧ body.handle = some i := by
      intro hl'
      refine (hinv.table i t' hl' q hq p hp hended hmax').imp_right ?_
      rintro ⟨call, body, hanswered, hbody, hn⟩
      refine ⟨call, body, ?_, mem_enqueue hbody, hn⟩
      rw [hreplied.of_ne (by rw [hanswered]; rintro _ ⟨⟩), hanswered]
    rcases heffect.server with rfl | ⟨pids, _, rfl, htells⟩
    · exact hknown hl'
    · obtain ⟨c, hc, rfl⟩ := hl'
      rcases getElem?_concat_cases hc with hi | ⟨rfl, rfl⟩
      · exact hknown ⟨c, hi, rfl⟩
      · obtain ⟨m, hm, rfl, hhandle⟩ := htells q hq
        obtain ⟨op, _, hanswered⟩ := hreplied.self m hm
        exact Or.inr ⟨_, m.body, hanswered, mem_enqueue_self hm, hhandle⟩

/-! ## The invariant of a run -/

/-- The communicators of a process before its first call. -/
theorem start_comms {server : Server.State} {p : Process}
    (hp : (Concurrent.start cfg server).processes pid = some p) :
    cfg.IsApplication pid ∧ p.pid = pid ∧
      (∃ c, p.comms 0 = some c ∧ Mirrors pid 0 (Server.worldMembers cfg) c) ∧
      (∃ c, p.comms 1 = some c ∧ c.handle = 1 ∧ c.tables.members = [pid]) ∧
      (∃ c, p.comms 2 = some c ∧ c.handle = 2 ∧ c.tables.members = []) ∧
      ∀ h, 3 ≤ h → p.comms h = none := by
  obtain ⟨happ, hp⟩ := @System.start_processes cfg server pid p hp
  obtain ⟨p', hp', hpid, hworld, hnone⟩ := initCommunicators_mirrors happ
  rw [hp] at hp'
  cases hp'
  refine ⟨happ, hpid, hworld, ?_, ?_, hnone⟩
  · simp [initCommunicators, Process.addCommunicator, maxCommunicators] at hp
    subst hp
    exact ⟨_, rfl, rfl, by simp [selfCommunicator, setPid_rowOf happ]⟩
  · simp [initCommunicators, Process.addCommunicator, maxCommunicators] at hp
    subst hp
    exact ⟨_, rfl, rfl, rfl⟩

theorem inv_start : Inv cfg (start cfg
    [some (Server.Communicator.fresh 0 (Server.tablesSpec (Server.worldMembers cfg))), none,
      none]) := by
  have hserver : ∀ (n : Nat) c,
      [some (Server.Communicator.fresh 0 (Server.tablesSpec (Server.worldMembers cfg))), none,
        none][n]? = some (some c) →
      n = 0 ∧ c = Server.Communicator.fresh 0 (Server.tablesSpec (Server.worldMembers cfg)) := by
    intro n c hc
    match n with
    | 0 =>
        cases hc
        exact ⟨rfl, rfl⟩
    | 1 => cases hc
    | 2 => cases hc
    | n + 3 => cases hc
  refine ⟨Concurrent.inv_start, ⟨rfl, rfl⟩, ?_, ?_, fun _ => rfl, fun _ => rfl, ?_, ?_⟩
  · intro n c hc
    obtain ⟨rfl, rfl⟩ := hserver n c hc
    exact SlotsInv.fresh (Server.valid_worldMembers cfg)
  · intro pid p hp
    obtain ⟨happ, hpid, ⟨w, hw, hmirrors⟩, ⟨c₁, hc₁, hhandle₁, hmembers₁⟩,
      ⟨c₂, hc₂, hhandle₂, hmembers₂⟩, hnone⟩ := start_comms hp
    have hcases : ∀ h c, p.comms h = some c →
        h = 0 ∧ c = w ∨ h = 1 ∧ c = c₁ ∨ h = 2 ∧ c = c₂ := by
      intro h c hc
      match h with
      | 0 => exact Or.inl ⟨rfl, Option.some.inj (hc.symm.trans hw)⟩
      | 1 => exact Or.inr (Or.inl ⟨rfl, Option.some.inj (hc.symm.trans hc₁)⟩)
      | 2 => exact Or.inr (Or.inr ⟨rfl, Option.some.inj (hc.symm.trans hc₂)⟩)
      | h + 3 =>
          rw [hnone _ (Nat.le_add_left 3 h)] at hc
          cases hc
    refine ⟨hpid, happ, by rw [hc₁]; rfl, ?_, ?_⟩
    · intro h c hc
      rcases hcases h c hc with ⟨rfl, rfl⟩ | ⟨rfl, rfl⟩ | ⟨rfl, rfl⟩
      · refine ⟨hmirrors.handle, Or.inr ⟨⟨_, rfl, hmirrors.tables.symm⟩, ?_⟩⟩
        rw [hmirrors.tables]
        exact hmirrors.globalRank
      · exact ⟨hhandle₁, Or.inl (Or.inl rfl)⟩
      · exact ⟨hhandle₂, Or.inl (Or.inr rfl)⟩
    · intro h c hc hreserved q hq
      rcases hcases h c hc with ⟨rfl, rfl⟩ | ⟨rfl, rfl⟩ | ⟨rfl, rfl⟩
      · rcases hreserved with h | h <;> cases h
      · rw [hmembers₁] at hq
        exact List.mem_singleton.mp hq
      · rw [hmembers₂] at hq
        cases hq
  · exact fun n => ⟨List.nodup_nil, Or.inl rfl⟩
  · intro n t hl pid _ p hp _ _
    obtain ⟨c, hc, _⟩ := hl
    obtain ⟨rfl, rfl⟩ := hserver n c hc
    obtain ⟨_, _, ⟨w, hw, _⟩, _⟩ := start_comms hp
    exact Or.inl (by rw [hw]; rfl)

/-- **A step keeps the invariant.** -/
theorem inv_step (hinv : Inv cfg s) (hstep : Step cfg order s s') : Inv cfg s' := by
  cases hstep with
  | call hphase hp hc hlegal => exact inv_call hinv hphase hp hc hlegal
  | deliver hrequest hmonitor => exact inv_deliver hinv hrequest hmonitor
  | perform hwork => exact inv_perform hinv hwork
  | accept hphase hp hc hreply hcomm => exact inv_accept hinv hphase hp hc hreply hcomm
  | halt hphase => exact inv_halt hinv hphase
  | send hphase hp hc hm =>
      exact ⟨hinv.base, hinv.free, hinv.slots, hinv.process, hinv.requests, hinv.replies,
        hinv.work, hinv.table⟩
  | forward hm =>
      exact ⟨hinv.base, hinv.free, hinv.slots, hinv.process, hinv.requests, hinv.replies,
        hinv.work, hinv.table⟩
  | take hphase hm =>
      exact ⟨hinv.base, hinv.free, hinv.slots, hinv.process, hinv.requests, hinv.replies,
        hinv.work, hinv.table⟩

/-- **The invariant holds in every reachable state.** -/
theorem inv_of_reachable (h : Reachable cfg order s) : Inv cfg s := by
  obtain ⟨server, hserver, hrun⟩ := h
  rw [Server.initCommWorld_eq] at hserver
  cases hserver
  induction hrun with
  | refl => exact inv_start
  | tail _ hstep ih => exact inv_step ih hstep

end Application

end EsalsaMpi
