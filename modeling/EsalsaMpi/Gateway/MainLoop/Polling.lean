import EsalsaMpi.Gateway.MainLoop.Changes

/-!
# Which sockets wait to write

The sockets get messages in `process_socket_messages`, before `epoll_wait`, and on their own
when they have written one.  Until then a socket that finds the queue empty goes back to
`STATE_RO`, although others may still be writing what they have taken from it.

Whenever `epoll_wait` is called, each socket with a message is in `STATE_RW` and registered for
writing, and none is idle while there is something in its queue.  Each queue that is not empty has
a socket that waits to write, if no data message for the cluster of the gateway itself has been
received; such a message is left in a queue without a socket (`socketStates_of_run`).
-/

namespace EsalsaMpi

namespace MainLoop

open Wire

/-- **The states of the sockets** of a gateway. -/
structure SocketStates (s : State) : Prop where
  registered : ∀ p, ∀ sock ∈ (s.connections p).sockets,
    sock.events = .inputOutput ↔ sock.state = .rw
  /-- `nonblock_write_message` does not find an inconsistent state. -/
  consistent : ∀ e rest, s.place = .write e rest →
    ∃ sock, s.socket? e.peer e.stream = some sock ∧ sock.state = .rw
  state_rw : s.place = .poll → ∀ p, ∀ sock ∈ (s.connections p).sockets,
    sock.out ≠ none → sock.state = .rw
  busy : s.place = .poll → ∀ p, (s.connections p).outQueue ≠ [] →
    ∀ sock ∈ (s.connections p).sockets, sock.out ≠ none
  waiting : s.place = .poll → ∀ p, (s.connections p).outQueue ≠ [] →
    ∃ sock ∈ (s.connections p).sockets, sock.out ≠ none ∧ sock.state = .rw ∧
      sock.events = .inputOutput

variable {g : Process} {s s' : State} {a : Action} {trace : List Action} {o : ByteOrder}
  {sock : Socket}

/-- A socket is registered for writing exactly in `STATE_RW`. -/
def Registered (sock : Socket) : Prop := sock.events = .inputOutput ↔ sock.state = .rw

theorem registered_ensureStateRo (h : Registered sock) : Registered (ensureStateRo sock) := by
  unfold ensureStateRo
  split
  · exact ⟨EpollEvents.noConfusion, SocketState.noConfusion⟩
  · exact h

theorem registered_ensureStateRw (h : Registered sock) : Registered (ensureStateRw sock) := by
  unfold ensureStateRw
  split
  · exact ⟨fun _ => rfl, fun _ => rfl⟩
  · exact h

theorem state_ensureStateRw (sock : Socket) : (ensureStateRw sock).state = .rw := by
  unfold ensureStateRw
  split
  · rfl
  · next hro =>
    cases hstate : sock.state with
    | ro => exact absurd hstate hro
    | rw => rfl

theorem socketInvariant_registered (g : Process) :
    SocketInvariant g (fun _ sock => Registered sock) fun _ _ => True where
  init := fun _ => ⟨EpollEvents.noConfusion, SocketState.noConfusion⟩
  request := fun _ => trivial
  data := fun _ _ _ => trivial
  ensureStateRo := fun _ _ => registered_ensureStateRo
  ensureStateRw := fun _ _ => registered_ensureStateRw
  prepareMessage := fun _ _ _ _ _ h _ _ => h
  wrote := fun _ _ _ h _ => h
  read := fun _ _ _ h _ => h

/-- A socket that has been prepared is in `STATE_RW` if it has a message. -/
theorem state_prepareSocket (sock : Socket) (queue : List Bytes) :
    (prepareSocket o sock queue).1.out ≠ none → (prepareSocket o sock queue).1.state = .rw := by
  unfold prepareSocket
  split
  · next hprepare =>
    intro hout
    rw [out_ensureStateRo] at hout
    obtain ⟨m, hm⟩ := Option.ne_none_iff_exists'.mp hout
    simp only [SocketInfo.prepareMessage, show sock.info.outMessage = some m from hm] at hprepare
    cases hprepare
  · exact fun _ => state_ensureStateRw _

/-- A connection that is ready for `epoll_wait`. -/
structure Ready (c : GatewayConnection) : Prop where
  state_rw : ∀ sock ∈ c.sockets, sock.out ≠ none → sock.state = .rw
  busy : c.outQueue ≠ [] → ∀ sock ∈ c.sockets, sock.out ≠ none

/-- `prepare_messages` makes a connection ready. -/
theorem ready_prepareMessages (c : GatewayConnection) : Ready (c.prepareMessages o) where
  state_rw := SharedQueue.forall_visit (P := fun _ => True)
    (fun sock queue _ => state_prepareSocket sock queue) _ _ fun _ _ => trivial
  busy := SharedQueue.busy_of_visit (takes_prepareSocket o) _ _

/-- What holds between the steps of a run: the connections are ready when `epoll_wait` is
called, and from then on each socket that is to be written to is in `STATE_RW`, until its turn
is over. -/
structure PollInv (s : State) : Prop where
  ready : s.place = .poll → ∀ p, Ready (s.connections p)
  nodup : s.place.writers.Nodup
  writable : ∀ id ∈ s.place.writers, ∃ sock, s.socket? id.1 id.2 = some sock ∧ sock.state = .rw

/-- Nothing is left to be written to. -/
theorem PollInv.of_nil (hwriters : s.place.writers = [])
    (hready : s.place = .poll → ∀ p, Ready (s.connections p)) : PollInv s where
  ready := hready
  nodup := by
    rw [hwriters]
    exact List.nodup_nil
  writable := by
    rw [hwriters]
    exact fun id hid => absurd hid List.not_mem_nil

/-- A socket changes, and the sockets that are to be written to are still in `STATE_RW`. -/
theorem PollInv.replace (h : PollInv s) {p : Peer} {i : Nat} {sock' : Socket}
    {queue : List Bytes} (hsock : s.socket? p i = some sock)
    (hconnections : s'.connections = s.replace p i sock' queue) (hpoll : s'.place ≠ .poll)
    (hwriters : s'.place.writers.Sublist s.place.writers)
    (hstate : (p, i) ∈ s'.place.writers → sock'.state = .rw) : PollInv s' where
  ready := fun hplace => absurd hplace hpoll
  nodup := h.nodup.sublist hwriters
  writable := by
    intro id hid
    rw [State.socket?, hconnections, getElem?_replace hsock]
    by_cases heq : (id.1, id.2) = (p, i)
    · rw [if_pos heq]
      exact ⟨sock', rfl, hstate (heq ▸ hid)⟩
    · rw [if_neg heq]
      exact h.writable id (hwriters.subset hid)

theorem PollInv.step (h : PollInv s) (hregistered : ∀ p, ∀ sock ∈ (s.connections p).sockets,
    Registered sock) (hchange : Change g s a s') : PollInv s' := by
  cases hchange with
  | same hconnections _ _ hwriters hplain =>
      refine ⟨fun hplace => absurd hplace hplain.ne_poll, h.nodup.sublist hwriters, fun id hid => ?_⟩
      rw [State.socket?, hconnections]
      exact h.writable id (hwriters.subset hid)
  | poll events hplace hevents heq =>
      subst heq
      refine ⟨Place.noConfusion, ?_, ?_⟩
      · exact hevents.nodup.sublist (List.filter_sublist.map _)
      · intro id hid
        obtain ⟨e, he, rfl⟩ := List.mem_map.mp hid
        obtain ⟨hmem, houtput⟩ := List.mem_filter.mp he
        obtain ⟨sock, hsock, hout⟩ := hevents.registered e hmem
        exact ⟨sock, hsock, (hregistered _ sock (List.mem_of_getElem? hsock)).mp (hout houtput)⟩
  | request m _ heq =>
      subst heq
      exact .of_nil rfl Place.noConfusion
  | data m _ _ _ _ _ heq =>
      subst heq
      exact .of_nil rfl Place.noConfusion
  | prepare heq =>
      subst heq
      exact .of_nil rfl fun _ p => ready_prepareMessages _
  | nothingToWrite e rest sock hplace hsock heq =>
      subst heq
      have hnodup := h.nodup
      rw [hplace] at hnodup
      refine h.replace hsock rfl (Place.plain_afterWrite e rest).ne_poll ?_ ?_
      · rw [Place.writers_afterWrite, hplace]
        exact List.sublist_cons_self _ _
      · rw [Place.writers_afterWrite]
        exact fun hmem => absurd hmem (List.nodup_cons.mp hnodup).1
  | prepareMessage e rest sock info queue hplace hsock _ heq =>
      subst heq
      obtain ⟨sock', hsock', hstate⟩ := h.writable (e.peer, e.stream) (by
        rw [hplace]
        exact List.mem_cons_self)
      rw [hsock, Option.some.injEq] at hsock'
      subst hsock'
      refine h.replace hsock rfl Place.noConfusion ?_ fun _ => hstate
      rw [hplace]
      exact List.Sublist.refl _
  | wrote e rest sock tmp hplace hsock _ heq =>
      subst heq
      obtain ⟨sock', hsock', hstate⟩ := h.writable (e.peer, e.stream) (by
        rw [hplace]
        exact List.mem_cons_self)
      rw [hsock, Option.some.injEq] at hsock'
      subst hsock'
      have hnext : (s.wrote e rest sock tmp).place ≠ .poll ∧
          (s.wrote e rest sock tmp).place.writers = s.place.writers := by
        rw [hplace]
        unfold State.wrote
        dsimp only
        split
        · exact ⟨Place.noConfusion, rfl⟩
        · split <;> exact ⟨Place.noConfusion, rfl⟩
      refine h.replace hsock (s.connections_wrote e rest sock tmp) hnext.1 ?_ fun _ => hstate
      rw [hnext.2]
  | read e count rest sock info hplace hsock _ hconnections _ _ hwriters hplain =>
      have hsame : s'.place.writers = s.place.writers := by rw [hwriters, hplace]; rfl
      refine h.replace hsock hconnections hplain.ne_poll (by rw [hsame]) fun hmem => ?_
      rw [hsame] at hmem
      obtain ⟨sock', hsock', hstate⟩ := h.writable _ hmem
      rw [hsock, Option.some.injEq] at hsock'
      subst hsock'
      exact hstate

theorem pollInv_of_run (h : Run g trace s) : PollInv s := by
  induction h with
  | start => exact .of_nil rfl Place.noConfusion
  | step h hstep ih =>
      exact ih.step (fun p => ((socketInvariant_registered g).run h p).1) hstep.change

/-- In every run the sockets are in the states that they should be in. -/
theorem socketStates_of_receivesForOthers (h : Run g trace s) (hothers : g.ReceivesForOthers trace) :
    SocketStates s := by
  have hinv := pollInv_of_run h
  have hregistered := fun p => ((socketInvariant_registered g).run h p).1
  refine
    { registered := hregistered
      consistent := ?_
      state_rw := fun hplace p => (hinv.ready hplace p).state_rw
      busy := fun hplace p => (hinv.ready hplace p).busy
      waiting := ?_ }
  · intro e rest hplace
    refine hinv.writable (e.peer, e.stream) ?_
    rw [hplace]
    exact List.mem_cons_self
  · intro hplace p hqueue
    have hsockets : (s.connections p).sockets ≠ [] := by
      intro hnil
      refine hqueue (outQueue_eq_nil_of_run h hothers ?_)
      rw [← List.length_eq_zero_iff, ← shaped_of_run h p, hnil, List.length_nil]
    obtain ⟨sock, rest, hcons⟩ := List.exists_cons_of_ne_nil hsockets
    have hmem : sock ∈ (s.connections p).sockets := by
      rw [hcons]
      exact List.mem_cons_self
    have hbusy := (hinv.ready hplace p).busy hqueue sock hmem
    have hstate := (hinv.ready hplace p).state_rw sock hmem hbusy
    exact ⟨sock, hmem, hbusy, hstate, (hregistered p sock hmem).mpr hstate⟩

/-- **In every run** in which no data message for the own cluster is received, the sockets are in
the states that they should be in; and in no other run when `epoll_wait` is called. -/
theorem socketStates_of_run (h : Run g trace s) :
    (g.ReceivesForOthers trace → SocketStates s) ∧
      (s.place = .poll → SocketStates s → g.ReceivesForOthers trace) := by
  refine ⟨socketStates_of_receivesForOthers h, fun hplace hstates m hm hown => ?_⟩
  obtain ⟨sock, hsock, _⟩ := hstates.waiting hplace (.cluster g.clusterRank)
    (List.ne_nil_of_mem (mem_outQueue_of_run h hm hown))
  have hlength := shaped_of_run h (.cluster g.clusterRank)
  have hnil : (g.connection (.cluster g.clusterRank)).sockets = [] := by
    by_contra hne
    exact (Process.sockets_cluster_ne_iff.mp hne).2 rfl
  rw [hnil, List.length_nil, List.length_eq_zero_iff] at hlength
  rw [hlength] at hsock
  exact absurd hsock List.not_mem_nil

/-- Two messages for a connection with one socket: one of them waits while the other is in
progress. -/
theorem socketStates_two_messages : ∃ trace s, Run firstOfTwo trace s ∧ s.place = .poll ∧
    (s.connections (.cluster 1)).outQueue = [emptyMessage.bytes .little] ∧ SocketStates s := by
  have h := run_receiveData firstOfTwo
  have h₁ := h.step (Step.data rfl (by decide) sendable_emptyMessage
    (by rw [getClusterRank_emptyMessage]; decide))
  have h₂ := h₁.step (Step.data rfl (by decide) sendable_emptyMessage
    (by rw [getClusterRank_emptyMessage]; decide))
  have h₃ := (h₂.step (Step.dataReceived rfl)).step (Step.prepare rfl)
  refine ⟨_, _, h₃, rfl, rfl, (socketStates_of_run h₃).1 fun m hm => ?_⟩
  obtain rfl : m = emptyMessage.bytes .little := by simpa [firstOfTwo] using hm
  decide

/-- A message for the first cluster itself, which its gateway cannot send. -/
theorem not_socketStates_ownMessage : ∃ trace s, Run firstOfTwo trace s ∧ s.place = .poll ∧
    (s.connections (.cluster 0)).outQueue = [{ emptyMessage with dstPid := 0 }.bytes .little] ∧
      (s.connections (.cluster 0)).sockets = [] ∧ ¬ SocketStates s := by
  have h := run_receiveData firstOfTwo
  have h₁ := h.step (Step.data (m := { emptyMessage with dstPid := 0 }) rfl (by decide)
    ⟨rfl, by decide⟩ (by decide))
  have h₂ := (h₁.step (Step.dataReceived rfl)).step (Step.prepare rfl)
  refine ⟨_, _, h₂, rfl, rfl, rfl, fun hstates => ?_⟩
  obtain ⟨sock, hsock, _⟩ := hstates.waiting rfl (.cluster 0) (List.cons_ne_nil _ _)
  exact absurd hsock List.not_mem_nil

end MainLoop

end EsalsaMpi
