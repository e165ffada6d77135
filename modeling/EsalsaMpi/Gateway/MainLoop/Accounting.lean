import EsalsaMpi.Gateway.MainLoop.Changes
import Mathlib.Algebra.BigOperators.Group.Finset.Basic
import Mathlib.Algebra.Order.BigOperators.Group.Multiset

/-!
# The counters of the flow control

`enqueue_data_message` counts a data message with the size that MPI tells, and
`nonblock_write_message` takes it off again, with the number of bytes that it has written.
Between the two the message is in the queue of a connection or with one of its sockets.

So the counters are the number and the total length of these messages in every run, and they
stay within the bounds that are checked before a message is received (`accounted_of_run`).
-/

namespace EsalsaMpi

namespace MainLoop

open Wire

/-- The messages of a connection: in its queue, or in progress on one of its sockets. -/
def GatewayConnection.messages (c : GatewayConnection) : Multiset Bytes :=
  SharedQueue.jobs Socket.out c.sockets c.outQueue

/-- The data messages that are pending in a gateway. -/
def State.pendingData (g : Process) (s : State) : Multiset Bytes :=
  ∑ k ∈ Finset.range g.clusterCount, (s.connections (.cluster k)).messages

/-- The total length of messages. -/
def totalLength (ms : Multiset Bytes) : Nat := (ms.map List.length).sum

/-- **The accounts** of a gateway. -/
structure Accounted (g : Process) (s : State) : Prop where
  messages : s.pendingDataMessages.toNat = (s.pendingData g).card
  size : s.pendingDataSize.toNat = totalLength (s.pendingData g)
  /-- What is taken off for a message in progress has been counted. -/
  no_underflow : ∀ k i sock m, s.socket? (.cluster k) i = some sock → sock.out = some m →
    1 ≤ s.pendingDataMessages.toNat ∧ sock.info.outcount ≤ s.pendingDataSize.toNat
  messages_le : s.pendingDataMessages ≤ maxPendingDataMsg
  size_lt : s.pendingDataSize < maxPendingDataSize ∨ ∃ m ∈ s.pendingData g,
    s.pendingDataSize.toNat < maxPendingDataSize.toNat + m.length

variable {g : Process} {s s' : State} {a : Action} {trace : List Action} {sock : Socket}
  {m : Bytes}

/-! ### The messages of a step -/

/-- Sockets are of connections to other clusters. -/
theorem Shaped.lt_clusterCount (h : Shaped g s) {k i : Nat}
    (hsock : s.socket? (.cluster k) i = some sock) : k < g.clusterCount := by
  refine (Process.sockets_cluster_ne_iff.mp fun hnil => ?_).1
  have hlt := (List.getElem?_eq_some_iff.mp hsock).1
  rw [h, hnil] at hlt
  exact absurd hlt (Nat.not_lt_zero _)

/-- A connection whose messages are the same. -/
theorem pendingData_congr
    (h : ∀ k, (s'.connections (.cluster k)).messages = (s.connections (.cluster k)).messages) :
    s'.pendingData g = s.pendingData g :=
  Finset.sum_congr rfl fun k _ => h k

/-- The messages of one connection change. -/
theorem pendingData_update {k : Nat} (hk : k < g.clusterCount) {c : GatewayConnection}
    (hconnections : s'.connections = Function.update s.connections (.cluster k) c) :
    s'.pendingData g + (s.connections (.cluster k)).messages =
      s.pendingData g + c.messages := by
  have hmem : k ∈ Finset.range g.clusterCount := Finset.mem_range.mpr hk
  have hothers : ∑ j ∈ (Finset.range g.clusterCount).erase k,
      (s'.connections (.cluster j)).messages =
        ∑ j ∈ (Finset.range g.clusterCount).erase k, (s.connections (.cluster j)).messages := by
    apply Finset.sum_congr rfl
    intro j hj
    rw [hconnections, Function.update_of_ne (fun h => (Finset.mem_erase.mp hj).1 (Peer.cluster.inj h))]
  rw [State.pendingData, State.pendingData, ← Finset.add_sum_erase _ _ hmem,
    ← Finset.add_sum_erase _ _ hmem, hothers, hconnections, Function.update_self]
  ac_rfl

/-- A message for a cluster. -/
theorem pendingData_enqueue {k : Nat} (hk : k < g.clusterCount)
    (hconnections : s'.connections = (s.enqueue (.cluster k) m).connections) :
    s'.pendingData g = m ::ₘ s.pendingData g := by
  have hupdate := pendingData_update (g := g) hk hconnections
  rw [show GatewayConnection.messages ⟨_, (s.connections (.cluster k)).outQueue ++ [m]⟩ =
    m ::ₘ (s.connections (.cluster k)).messages from SharedQueue.jobs_append m,
    Multiset.add_cons, ← Multiset.cons_add] at hupdate
  exact add_right_cancel hupdate

/-- A request to the server is no data message. -/
theorem pendingData_request (hconnections : s'.connections = (s.enqueue .server m).connections) :
    s'.pendingData g = s.pendingData g := by
  apply pendingData_congr
  intro k
  rw [hconnections, State.enqueue, State.setConnection]
  dsimp only
  rw [Function.update_of_ne (by simp)]

/-- A socket that looks at its queue or that is left alone. -/
theorem messages_replace {p q : Peer} {i : Nat} {sock' : Socket} {queue : List Bytes}
    (h : SharedQueue.jobs Socket.out ((s.connections p).sockets.set i sock') queue =
      (s.connections p).messages) :
    (s.replace p i sock' queue q).messages = (s.connections q).messages := by
  by_cases hq : q = p
  · subst hq
    rw [State.replace, Function.update_self]
    exact h
  · rw [State.replace, Function.update_of_ne hq]

theorem pendingData_replace {p : Peer} {i : Nat} {sock' : Socket} {queue : List Bytes}
    (h : SharedQueue.jobs Socket.out ((s.connections p).sockets.set i sock') queue =
      (s.connections p).messages)
    (hconnections : s'.connections = s.replace p i sock' queue) :
    s'.pendingData g = s.pendingData g := by
  apply pendingData_congr
  intro k
  rw [hconnections]
  exact messages_replace h

/-- A message that is finished. -/
theorem pendingData_done {k i : Nat} {sock' : Socket} (hk : k < g.clusterCount)
    (hsock : s.socket? (.cluster k) i = some sock) (hout : sock.out = some m)
    (hout' : sock'.out = none)
    (hconnections : s'.connections =
      s.replace (.cluster k) i sock' (s.connections (.cluster k)).outQueue) :
    m ::ₘ s'.pendingData g = s.pendingData g := by
  have hupdate := pendingData_update (g := g) hk hconnections
  rw [show (s.connections (.cluster k)).messages =
    m ::ₘ GatewayConnection.messages ⟨(s.connections (.cluster k)).sockets.set i sock',
      (s.connections (.cluster k)).outQueue⟩ from (SharedQueue.jobs_done hsock hout hout').symm,
    Multiset.add_cons, ← Multiset.cons_add] at hupdate
  exact add_right_cancel hupdate

theorem totalLength_cons (m : Bytes) (ms : Multiset Bytes) :
    totalLength (m ::ₘ ms) = m.length + totalLength ms := by
  rw [totalLength, Multiset.map_cons, Multiset.sum_cons, totalLength]

/-! ### The sizes of messages in progress -/

/-- A data message in progress is as long as its header says, and not all of it has been
written. -/
def InProgress (p : Peer) (sock : Socket) : Prop :=
  sock.info.type = p.type ∧ ∀ m, p ≠ .server → sock.out = some m →
    sock.info.outcount = m.length ∧ sock.info.outpos < sock.info.outcount

theorem inProgress_of_sameOut {p : Peer} {info : SocketInfo} (h : InProgress p sock)
    (hinfo : info.SameOut sock.info) : InProgress p { sock with info := info } := by
  obtain ⟨htype, hout, hpos, hcount⟩ := hinfo
  refine ⟨htype.trans h.1, fun m hp hm => ?_⟩
  simp only [Socket.out, hout] at hm
  simp only [hpos, hcount]
  exact h.2 m hp hm

theorem socketInvariant_inProgress (g : Process) :
    SocketInvariant g InProgress fun p m =>
      p ≠ .server → (LinkKind.data g.order).WellSized m where
  init := fun p => ⟨rfl, fun m _ hm => by cases hm⟩
  request := fun m h => absurd rfl h
  data := fun m hm _ _ => hm.wellSized g.order
  ensureStateRo := by
    intro p sock h
    unfold ensureStateRo
    split
    · exact h
    · exact h
  ensureStateRw := by
    intro p sock h
    unfold ensureStateRw
    split
    · exact h
    · exact h
  prepareMessage := by
    intro p sock queue info rest h hqueue hprepare
    cases hout : sock.info.outMessage with
    | some m =>
        simp only [SocketInfo.prepareMessage, hout, Option.some.injEq, Prod.mk.injEq] at hprepare
        obtain ⟨rfl, -⟩ := hprepare
        exact h
    | none =>
        cases queue with
        | nil =>
            simp only [SocketInfo.prepareMessage, hout] at hprepare
            cases hprepare
        | cons m queue =>
            simp only [SocketInfo.prepareMessage, hout, Option.some.injEq, Prod.mk.injEq]
              at hprepare
            obtain ⟨rfl, -⟩ := hprepare
            refine ⟨h.1, fun m' hp hm' => ?_⟩
            cases hm'
            obtain ⟨hlong, hlength⟩ := hqueue m List.mem_cons_self hp
            have htype : sock.info.type = .data := by
              rw [h.1]
              cases p with
              | server => exact absurd rfl hp
              | cluster k => rfl
            have hcount : headerLength sock.info.type g.order m = m.length := by
              rw [htype]
              exact hlength
            unfold genericMessageSize at hlong
            exact ⟨hcount, by rw [hcount]; show 0 < m.length; omega⟩
  wrote := by
    intro p sock tmp h _
    unfold SocketInfo.afterWrite
    split
    · next hlt => exact ⟨h.1, fun m hp hm => ⟨(h.2 m hp hm).1, hlt⟩⟩
    · exact ⟨h.1, fun m _ hm => by cases hm⟩
  read := fun p sock info h hinfo => inProgress_of_sameOut h hinfo

/-! ### The counters -/

/-- The counters, and what is left of the bounds that have been checked. -/
structure Counted (g : Process) (s : State) : Prop where
  messages : s.pendingDataMessages.toNat = (s.pendingData g).card
  size : s.pendingDataSize.toNat = totalLength (s.pendingData g)
  messages_le : s.pendingDataMessages ≤ maxPendingDataMsg
  size_lt : s.pendingDataSize < maxPendingDataSize ∨ ∃ m ∈ s.pendingData g,
    s.pendingDataSize.toNat < maxPendingDataSize.toNat + m.length

theorem Counted.same (h : Counted g s) (hpending : s'.pendingData g = s.pendingData g)
    (hmessages : s'.pendingDataMessages = s.pendingDataMessages)
    (hsize : s'.pendingDataSize = s.pendingDataSize) : Counted g s' where
  messages := by
    rw [hpending, hmessages]
    exact h.messages
  size := by
    rw [hpending, hsize]
    exact h.size
  messages_le := by
    rw [hmessages]
    exact h.messages_le
  size_lt := by
    rw [hpending, hsize]
    exact h.size_lt

/-- A data message is counted. -/
theorem Counted.data (h : Counted g s) (hpending : s'.pendingData g = m ::ₘ s.pendingData g)
    (hlt : s.pendingDataMessages < maxPendingDataMsg) (hsmall : s.pendingDataSize < maxPendingDataSize)
    (hm : m.length < 2 ^ 31) (hmessages : s'.pendingDataMessages = s.pendingDataMessages + 1)
    (hsize : s'.pendingDataSize = s.pendingDataSize + UInt64.ofNat m.length) : Counted g s' := by
  have hlt' : s.pendingDataMessages.toNat < 128 := UInt64.lt_iff_toNat_lt.mp hlt
  have hsmall' : s.pendingDataSize.toNat < 2 ^ 30 := UInt64.lt_iff_toNat_lt.mp hsmall
  have hcount : s'.pendingDataMessages.toNat = s.pendingDataMessages.toNat + 1 := by
    rw [hmessages, UInt64.toNat_add]
    exact Nat.mod_eq_of_lt (show s.pendingDataMessages.toNat + 1 < 2 ^ 64 by omega)
  have htotal : s'.pendingDataSize.toNat = s.pendingDataSize.toNat + m.length := by
    rw [hsize, UInt64.toNat_add, UInt64.toNat_ofNat', Nat.mod_eq_of_lt (by omega),
      Nat.mod_eq_of_lt (by omega)]
  refine
    { messages := ?_
      size := ?_
      messages_le := ?_
      size_lt := Or.inr ⟨m, ?_, ?_⟩ }
  · rw [hcount, hpending, Multiset.card_cons, h.messages]
  · rw [htotal, hpending, totalLength_cons, h.size, Nat.add_comm]
  · rw [UInt64.le_iff_toNat_le, hcount]
    exact hlt'
  · rw [hpending]
    exact Multiset.mem_cons_self m _
  · rw [htotal]
    show _ < 2 ^ 30 + m.length
    omega

/-- A data message that is finished is taken off. -/
theorem Counted.done (h : Counted g s) (hpending : m ::ₘ s'.pendingData g = s.pendingData g)
    (hmessages : s'.pendingDataMessages = s.pendingDataMessages - 1)
    (hsize : s'.pendingDataSize = s.pendingDataSize - UInt64.ofNat m.length) : Counted g s' := by
  have hcard := h.messages
  have hlength := h.size
  rw [← hpending, Multiset.card_cons] at hcard
  rw [← hpending, totalLength_cons] at hlength
  have hbound := s.pendingDataSize.toNat_lt
  have hcount : s'.pendingDataMessages.toNat = s.pendingDataMessages.toNat - 1 := by
    rw [hmessages]
    refine UInt64.toNat_sub_of_le _ _ (UInt64.le_iff_toNat_le.mpr ?_)
    show 1 ≤ _
    omega
  have hword : (UInt64.ofNat m.length).toNat = m.length := by
    rw [UInt64.toNat_ofNat']
    exact Nat.mod_eq_of_lt (by omega)
  have htotal : s'.pendingDataSize.toNat = s.pendingDataSize.toNat - m.length := by
    rw [hsize, UInt64.toNat_sub_of_le _ _ (UInt64.le_iff_toNat_le.mpr (by omega)), hword]
  refine
    { messages := by omega
      size := by omega
      messages_le := ?_
      size_lt := ?_ }
  · have hle := UInt64.le_iff_toNat_le.mp h.messages_le
    rw [UInt64.le_iff_toNat_le]
    omega
  · rcases h.size_lt with hlt | ⟨m', hm', hlt⟩
    · left
      have hlt' := UInt64.lt_iff_toNat_lt.mp hlt
      rw [UInt64.lt_iff_toNat_lt]
      omega
    · rw [← hpending] at hm'
      rcases Multiset.mem_cons.mp hm' with rfl | hm'
      · left
        rw [UInt64.lt_iff_toNat_lt]
        omega
      · right
        exact ⟨m', hm', by omega⟩

/-- A socket that has accepted some bytes. -/
theorem Counted.wrote (h : Counted g s) (hshaped : Shaped g s)
    (hprogress : ∀ p, ∀ sock ∈ (s.connections p).sockets, InProgress p sock) {e : SocketEvent}
    (rest : List SocketEvent) {tmp : Nat} (hsock : s.socket? e.peer e.stream = some sock)
    (hout : sock.out = some m) (htmp : tmp ≤ sock.info.outcount - sock.info.outpos) :
    Counted g (s.wrote e rest sock tmp) := by
  have hin := hprogress _ sock (List.mem_of_getElem? hsock)
  have hconnections := s.connections_wrote e rest sock tmp
  by_cases hmore : sock.info.outpos + tmp < sock.info.outcount
  · -- the message is still in progress
    have hafter : Socket.out { sock with info := sock.info.afterWrite tmp } = sock.out := by
      rw [Socket.out, SocketInfo.afterWrite, if_pos hmore, Socket.out]
    have hplace : s.wrote e rest sock tmp = { s.setSocket e.peer e.stream
        { sock with info := sock.info.afterWrite tmp } with place := .writing e rest } := by
      simp only [State.wrote, if_pos hmore]
    refine h.same (pendingData_replace (SharedQueue.jobs_set hsock hafter) hconnections) ?_ ?_
    · rw [hplace]
      rfl
    · rw [hplace]
      rfl
  · have hafter : Socket.out { sock with info := sock.info.afterWrite tmp } = none := by
      rw [Socket.out, SocketInfo.afterWrite, if_neg hmore]
    cases hpeer : e.peer with
    | server =>
        -- a request to the server, which is not counted
        have hserver : sock.info.type ≠ .data := by
          rw [hin.1, hpeer]
          exact SocketType.noConfusion
        have hplace : s.wrote e rest sock tmp = { s.setSocket e.peer e.stream
            { sock with info := sock.info.afterWrite tmp } with place := .write e rest } := by
          simp only [State.wrote, if_neg hmore, if_neg hserver]
        refine h.same (pendingData_congr fun k => ?_) ?_ ?_
        · rw [hconnections, hpeer]
          exact congrArg GatewayConnection.messages
            (Function.update_of_ne (show Peer.cluster k ≠ .server by simp) _ _)
        · rw [hplace]
          rfl
        · rw [hplace]
          rfl
    | cluster k =>
        -- a data message, all of which has been written
        have hdata : sock.info.type = .data := by rw [hin.1, hpeer]; rfl
        have hplace : s.wrote e rest sock tmp = { s.setSocket e.peer e.stream
            { sock with info := sock.info.afterWrite tmp } with
          pendingDataMessages := s.pendingDataMessages - 1
          pendingDataSize := s.pendingDataSize - UInt64.ofNat (sock.info.outpos + tmp)
          place := .write e rest } := by
          simp only [State.wrote, if_neg hmore, if_pos hdata]
        obtain ⟨hcount, hpos⟩ := hin.2 m (by rw [hpeer]; exact Peer.noConfusion) hout
        have htotal : sock.info.outpos + tmp = m.length := by omega
        rw [hpeer] at hconnections hsock
        have hk := hshaped.lt_clusterCount hsock
        refine h.done (pendingData_done hk hsock hout hafter hconnections) ?_ ?_
        · rw [hplace]
        · rw [hplace, ← htotal]

/-- The message that is being written. -/
def Writing (s : State) : Prop :=
  ∀ e rest, s.place = .writing e rest →
    ∃ sock m, s.socket? e.peer e.stream = some sock ∧ sock.out = some m

theorem Writing.step (h : Writing s) (hchange : Change g s a s') : Writing s' := by
  intro e rest hplace
  cases hchange with
  | same _ _ _ _ hplain => exact absurd hplace (hplain.ne_writing e rest)
  | poll _ _ _ heq =>
      subst heq
      cases hplace
  | request _ _ heq =>
      subst heq
      cases hplace
  | data _ _ _ _ _ _ heq =>
      subst heq
      cases hplace
  | prepare heq =>
      subst heq
      cases hplace
  | nothingToWrite e' rest' _ _ _ heq =>
      subst heq
      exact absurd hplace ((Place.plain_afterWrite e' rest').ne_writing e rest)
  | prepareMessage e' rest' sock info queue _ hsock hprepare heq =>
      subst heq
      cases hplace
      have hout : ∃ m, info.outMessage = some m := by
        unfold SocketInfo.prepareMessage at hprepare
        split at hprepare
        · next m hm =>
          cases hprepare
          exact ⟨m, hm⟩
        · split at hprepare
          · cases hprepare
          · cases hprepare
            exact ⟨_, rfl⟩
      obtain ⟨m, hm⟩ := hout
      refine ⟨{ sock with info := info }, m, ?_, hm⟩
      exact (getElem?_replace hsock _ queue e.peer e.stream).trans (if_pos rfl)
  | wrote e' rest' sock tmp hplace' hsock _ heq =>
      subst heq
      by_cases hmore : sock.info.outpos + tmp < sock.info.outcount
      · obtain ⟨sock', m, hsock', hout⟩ := h e' rest' hplace'
        rw [hsock, Option.some.injEq] at hsock'
        subst hsock'
        have hlast : (s.wrote e' rest' sock tmp).place = .writing e' rest' := by
          simp only [State.wrote, if_pos hmore]
        rw [hlast] at hplace
        cases hplace
        refine ⟨{ sock with info := sock.info.afterWrite tmp }, m, ?_, ?_⟩
        · rw [State.socket?, State.connections_wrote, getElem?_replace hsock, if_pos rfl]
        · show (sock.info.afterWrite tmp).outMessage = some m
          rw [SocketInfo.afterWrite, if_pos hmore]
          exact hout
      · have hlast : (s.wrote e' rest' sock tmp).place = .write e' rest' := by
          simp only [State.wrote, if_neg hmore]
          split <;> rfl
        rw [hlast] at hplace
        cases hplace
  | read _ _ _ _ _ _ _ _ _ _ _ _ hplain => exact absurd hplace (hplain.ne_writing e rest)

theorem Counted.step (h : Counted g s) (hshaped : Shaped g s) (hwriting : Writing s)
    (hprogress : ∀ p, ∀ sock ∈ (s.connections p).sockets, InProgress p sock)
    (hchange : Change g s a s') : Counted g s' := by
  cases hchange with
  | same hconnections hmessages hsize =>
      exact h.same (pendingData_congr fun k => by rw [hconnections]) hmessages hsize
  | poll _ _ _ heq =>
      subst heq
      exact h.same rfl rfl rfl
  | request m _ heq =>
      subst heq
      exact h.same (pendingData_request rfl) rfl rfl
  | data m count _ hreceives hm hcluster heq =>
      subst heq
      have hlength : (m.bytes g.order).length < 2 ^ 31 := by
        rw [hm.length_bytes]
        exact hm.length_lt
      exact h.data (pendingData_enqueue (by rwa [dstPid_bytes]) rfl) hreceives.1 hreceives.2.1
        hlength rfl rfl
  | prepare heq =>
      subst heq
      exact h.same (pendingData_congr fun k =>
        SharedQueue.jobs_visit (takes_prepareSocket _) _ _) rfl rfl
  | nothingToWrite _ _ sock _ hsock heq =>
      subst heq
      exact h.same (pendingData_replace
        (SharedQueue.jobs_set hsock (out_ensureStateRo sock)) rfl) rfl rfl
  | prepareMessage e _ sock info queue _ hsock hprepare heq =>
      subst heq
      obtain ⟨hout, hqueue⟩ := prepareSocket_of_some hprepare
      have hjobs := (takes_prepareSocket g.order).jobs_set hsock (s.connections e.peer).outQueue
      rw [hqueue] at hjobs
      exact h.same (pendingData_replace
        ((SharedQueue.jobs_set_congr hsock hout.symm).trans hjobs) rfl) rfl rfl
  | wrote e rest sock tmp hplace hsock htmp heq =>
      subst heq
      obtain ⟨sock', m, hsock', hout⟩ := hwriting e rest hplace
      rw [hsock, Option.some.injEq] at hsock'
      subst hsock'
      exact h.wrote hshaped hprogress rest hsock hout htmp
  | read _ _ _ sock info _ hsock hinfo hconnections hmessages hsize =>
      have hout : Socket.out { sock with info := info } = sock.out := hinfo.2.1
      exact h.same (pendingData_replace (SharedQueue.jobs_set hsock hout) hconnections)
        hmessages hsize

theorem counted_of_run (h : Run g trace s) : Counted g s ∧ Writing s := by
  induction h with
  | start =>
      refine ⟨?_, fun e rest hplace => by cases hplace⟩
      have hpending : (State.start g).pendingData g = 0 := by
        refine Finset.sum_eq_zero fun k _ => ?_
        refine Multiset.eq_zero_of_forall_notMem fun m hm => ?_
        rcases SharedQueue.mem_jobs.mp hm with hm | ⟨sock, hsock, hout⟩
        · exact absurd hm List.not_mem_nil
        · simp only [State.start, Process.connection] at hsock
          split at hsock
          · rw [List.eq_of_mem_replicate hsock] at hout
            cases hout
          · exact absurd hsock List.not_mem_nil
      exact
        { messages := by rw [hpending]; rfl
          size := by rw [hpending]; rfl
          messages_le := show (0 : UInt64) ≤ maxPendingDataMsg by decide
          size_lt := Or.inl (show (0 : UInt64) < maxPendingDataSize by decide) }
  | step h hstep ih =>
      exact ⟨ih.1.step (shaped_of_run h) ih.2
        (fun p => ((socketInvariant_inProgress g).run h p).1) hstep.change, ih.2.step hstep.change⟩

/-- **The accounts are right** in every run. -/
theorem accounted_of_run (h : Run g trace s) : Accounted g s := by
  obtain ⟨hcounted, _⟩ := counted_of_run h
  refine
    { messages := hcounted.messages
      size := hcounted.size
      no_underflow := ?_
      messages_le := hcounted.messages_le
      size_lt := hcounted.size_lt }
  intro k i sock m hsock hout
  have hmem : sock ∈ (s.connections (.cluster k)).sockets := List.mem_of_getElem? hsock
  have hpending : m ∈ s.pendingData g := Multiset.mem_sum.mpr
    ⟨k, Finset.mem_range.mpr ((shaped_of_run h).lt_clusterCount hsock),
      SharedQueue.mem_jobs.mpr (Or.inr ⟨sock, hmem, hout⟩)⟩
  obtain ⟨others, hothers⟩ := Multiset.exists_cons_of_mem hpending
  have hcount := (((socketInvariant_inProgress g).run h (.cluster k)).1 sock hmem).2 m
    (by simp) hout
  constructor
  · rw [hcounted.messages, hothers, Multiset.card_cons]
    exact Nat.le_add_left 1 _
  · rw [hcounted.size, hothers, totalLength_cons, hcount.1]
    exact Nat.le_add_right _ _

/-- A message for the other cluster is counted. -/
theorem accounted_emptyMessage : ∃ trace s, Run firstOfTwo trace s ∧
    s.pendingDataMessages = 1 ∧ Accounted firstOfTwo s := by
  have h := run_receiveData firstOfTwo
  have h' := h.step (Step.data rfl (by decide) sendable_emptyMessage
    (by rw [getClusterRank_emptyMessage]; decide))
  exact ⟨_, _, h', rfl, accounted_of_run h'⟩

end MainLoop

end EsalsaMpi
