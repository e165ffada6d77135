import EsalsaMpi.Gateway.MainLoop.Steps

/-!
# What a step of the main loop does to the connections

Most steps leave the connections alone (`Change.same`).  The others are those that put a message
into the queue of a connection, those that give the sockets messages from their queues, and
those of a single socket.  `Step.change` says so for every step, and what follows about the
sockets of a run is proved from it.

A gateway has no sockets for its own cluster, but a queue; `enqueue_data_message` does not ask
whether the message is for another one.  A message for the own cluster stays in that queue
(`mem_outQueue_of_run`).
-/

namespace EsalsaMpi

namespace MainLoop

open Wire

/-- The sockets of events with `EPOLLOUT`. -/
def outputs (events : List SocketEvent) : List (Peer × Nat) :=
  (events.filter (·.output)).map fun e => (e.peer, e.stream)

/-- The sockets that are still to be written to before `epoll_wait` is called again. -/
def Place.writers : Place → List (Peer × Nat)
  | .events rest => outputs rest
  | .write e rest => (e.peer, e.stream) :: outputs rest
  | .writing e rest => (e.peer, e.stream) :: outputs rest
  | .read _ _ rest => outputs rest
  | _ => []

/-- The places that do not follow the preparation of a message. -/
def Place.Plain : Place → Prop
  | .poll => False
  | .writing _ _ => False
  | _ => True

/-- The type of the sockets of a connection. -/
def Peer.type : Peer → SocketType
  | .server => .server
  | .cluster _ => .data

/-- The connections with a socket and its queue changed. -/
def State.replace (s : State) (p : Peer) (i : Nat) (sock : Socket) (queue : List Bytes) :
    Peer → GatewayConnection :=
  Function.update s.connections p ⟨(s.connections p).sockets.set i sock, queue⟩

/-- What a step does to the connections. -/
inductive Change (g : Process) (s : State) (a : Action) (s' : State) : Prop where
  | same (hconnections : s'.connections = s.connections)
      (hmessages : s'.pendingDataMessages = s.pendingDataMessages)
      (hsize : s'.pendingDataSize = s.pendingDataSize)
      (hwriters : s'.place.writers.Sublist s.place.writers) (hplain : s'.place.Plain)
  | poll (events : List SocketEvent) (hplace : s.place = .poll) (hevents : s.Polls events)
      (h : s' = { s with place := .events events })
  | request (m : Bytes) (hmaster : g.gatewayRank = 0)
      (h : s' = { s.enqueue .server m with place := .serverReply true })
  | data (m : DataMessage) (count : Nat) (ha : a = .data (m.bytes g.order))
      (hreceives : s.ReceivesData count) (hm : m.Sendable)
      (hcluster : getClusterRank m.dstPid < g.clusterCount)
      (h : s' = { s.enqueueDataMessage g.order (m.bytes g.order) (m.bytes g.order).length with
        place := .receiveData (count + 1) })
  | prepare (h : s' = { s with
      connections := fun p => (s.connections p).prepareMessages g.order
      place := .poll })
  | nothingToWrite (e : SocketEvent) (rest : List SocketEvent) (sock : Socket)
      (hplace : s.place = .write e rest) (hsock : s.socket? e.peer e.stream = some sock)
      (h : s' = { s with
        connections := s.replace e.peer e.stream (ensureStateRo sock) (s.connections e.peer).outQueue
        place := .afterWrite e rest })
  | prepareMessage (e : SocketEvent) (rest : List SocketEvent) (sock : Socket)
      (info : SocketInfo) (queue : List Bytes) (hplace : s.place = .write e rest)
      (hsock : s.socket? e.peer e.stream = some sock)
      (hprepare : sock.info.prepareMessage g.order (s.connections e.peer).outQueue =
        some (info, queue))
      (h : s' = { s with
        connections := s.replace e.peer e.stream { sock with info := info } queue
        place := .writing e rest })
  | wrote (e : SocketEvent) (rest : List SocketEvent) (sock : Socket) (tmp : Nat)
      (hplace : s.place = .writing e rest) (hsock : s.socket? e.peer e.stream = some sock)
      (htmp : tmp ≤ sock.info.outcount - sock.info.outpos) (h : s' = s.wrote e rest sock tmp)
  | read (e : SocketEvent) (count : Nat) (rest : List SocketEvent) (sock : Socket)
      (info : SocketInfo) (hplace : s.place = .read e count rest)
      (hsock : s.socket? e.peer e.stream = some sock) (hinfo : info.SameOut sock.info)
      (hconnections : s'.connections = s.replace e.peer e.stream { sock with info := info }
        (s.connections e.peer).outQueue)
      (hmessages : s'.pendingDataMessages = s.pendingDataMessages)
      (hsize : s'.pendingDataSize = s.pendingDataSize)
      (hwriters : s'.place.writers = outputs rest) (hplain : s'.place.Plain)

variable {g : Process} {s s' : State} {a : Action} {trace : List Action}

theorem Place.writers_afterWrite (e : SocketEvent) (rest : List SocketEvent) :
    (Place.afterWrite e rest).writers = outputs rest := by
  unfold afterWrite
  split <;> rfl

theorem Place.plain_afterWrite (e : SocketEvent) (rest : List SocketEvent) :
    (Place.afterWrite e rest).Plain := by
  unfold afterWrite
  split <;> exact trivial

theorem Place.Plain.ne_poll {place : Place} (h : place.Plain) : place ≠ .poll := by
  rintro rfl
  exact h

theorem Place.Plain.ne_writing {place : Place} (h : place.Plain) (e : SocketEvent)
    (rest : List SocketEvent) : place ≠ .writing e rest := by
  rintro rfl
  exact h

/-- A step that changes the queues of the gateway or its place at most. -/
theorem Change.of_place (hconnections : s'.connections = s.connections)
    (hmessages : s'.pendingDataMessages = s.pendingDataMessages)
    (hsize : s'.pendingDataSize = s.pendingDataSize) (hwriters : s'.place.writers = [])
    (hplain : s'.place.Plain) : Change g s a s' :=
  .same hconnections hmessages hsize (hwriters ▸ List.nil_sublist _) hplain

/-- **What a step does to the connections.** -/
theorem Step.change (h : Step g s a s') : Change g s a s' := by
  cases h with
  | noRequest => exact .of_place rfl rfl rfl rfl trivial
  | request _ hmaster => exact .request _ hmaster rfl
  | requestFailed => exact .of_place rfl rfl rfl rfl trivial
  | reply => exact .of_place rfl rfl rfl rfl trivial
  | replyFailed => exact .of_place rfl rfl rfl rfl trivial
  | processed hplace => exact .same rfl rfl rfl (List.Sublist.refl _) (by rw [hplace]; trivial)
  | processedFailed => exact .of_place rfl rfl rfl rfl trivial
  | forwardReply hplace => exact .same rfl rfl rfl (List.Sublist.refl _) (by rw [hplace]; trivial)
  | forwardReplyFailed => exact .of_place rfl rfl rfl rfl trivial
  | serverForwarded =>
      refine .of_place rfl rfl rfl ?_ ?_
      · dsimp only
        split <;> rfl
      · dsimp only
        split <;> trivial
  | forwardData hplace => exact .same rfl rfl rfl (List.Sublist.refl _) (by rw [hplace]; trivial)
  | forwardDataFailed => exact .of_place rfl rfl rfl rfl trivial
  | dataForwarded => exact .of_place rfl rfl rfl rfl trivial
  | pollRequests =>
      refine .of_place rfl rfl rfl ?_ ?_
      · dsimp only
        split <;> rfl
      · dsimp only
        split <;> trivial
  | data _ hreceives hm hcluster => exact .data _ _ rfl hreceives hm hcluster rfl
  | dataReceived => exact .of_place rfl rfl rfl rfl trivial
  | prepare => exact .prepare rfl
  | poll hplace hevents => exact .poll _ hplace hevents rfl
  | handled =>
      refine .of_place rfl rfl rfl ?_ ?_
      · dsimp only
        split <;> rfl
      · dsimp only
        split <;> trivial
  | eventFailed => exact .of_place rfl rfl rfl rfl trivial
  | @event e rest hplace =>
      have hwriters : s.place.writers = outputs (e :: rest) := by rw [hplace]; rfl
      refine .same rfl rfl rfl ?_ ?_
      · rw [hwriters]
        dsimp only
        by_cases houtput : e.output = true
        · rw [if_pos houtput, outputs, List.filter_cons_of_pos houtput]
          exact List.Sublist.refl _
        · rw [if_neg houtput, Place.writers_afterWrite, outputs, outputs,
            List.filter_cons_of_neg houtput]
      · dsimp only
        split
        · trivial
        · exact Place.plain_afterWrite e rest
  | nothingToWrite hplace hsock => exact .nothingToWrite _ _ _ hplace hsock rfl
  | prepareMessage hplace hsock hprepare =>
      exact .prepareMessage _ _ _ _ _ hplace hsock hprepare rfl
  | wrote hplace hsock htmp => exact .wrote _ _ _ _ hplace hsock htmp rfl
  | @writeBlocked e rest hplace =>
      refine .same rfl rfl rfl ?_ (Place.plain_afterWrite _ _)
      rw [hplace, Place.writers_afterWrite]
      exact List.sublist_cons_self _ _
  | writeFailed => exact .of_place rfl rfl rfl rfl trivial
  | @read e _ _ _ _ _ _ _ _ m hplace hsock hread =>
      have hin : ∀ t : State, (t.enqueueIn e.peer m).connections = t.connections ∧
          (t.enqueueIn e.peer m).pendingDataMessages = t.pendingDataMessages ∧
          (t.enqueueIn e.peer m).pendingDataSize = t.pendingDataSize := by
        intro t
        unfold State.enqueueIn
        split <;> exact ⟨rfl, rfl, rfl⟩
      refine .read _ _ _ _ _ hplace hsock (nonblockReadMessage_sameOut hread) (hin _).1 (hin _).2.1
        (hin _).2.2 ?_ ?_
      · dsimp only
        split <;> rfl
      · dsimp only
        split <;> trivial
  | readFailed => exact .of_place rfl rfl rfl rfl trivial

/-! ### Sockets and messages -/

@[simp] theorem out_ensureStateRo (sock : Socket) : (ensureStateRo sock).out = sock.out := by
  unfold ensureStateRo
  split <;> rfl

@[simp] theorem out_ensureStateRw (sock : Socket) : (ensureStateRw sock).out = sock.out := by
  unfold ensureStateRw
  split <;> rfl

/-- The sockets take messages from the queue as workers take jobs. -/
theorem takes_prepareSocket (o : ByteOrder) : SharedQueue.Takes Socket.out (prepareSocket o) where
  busy := by
    intro sock queue m hout
    have hprepare : sock.info.prepareMessage o queue = some (sock.info, queue) := by
      simp only [SocketInfo.prepareMessage, show sock.info.outMessage = some m from hout]
    rw [prepareSocket, hprepare]
    exact ⟨(out_ensureStateRw _).trans hout, rfl⟩
  idle := by
    intro sock hout
    have hprepare : sock.info.prepareMessage o [] = none := by
      simp only [SocketInfo.prepareMessage, show sock.info.outMessage = none from hout]
    rw [prepareSocket, hprepare]
    exact ⟨(out_ensureStateRo _).trans hout, rfl⟩
  takes := by
    intro sock m queue hout
    have hprepare : sock.info.prepareMessage o (m :: queue) = some ({ sock.info with
        outMessage := some m
        outpos := 0
        outcount := headerLength sock.info.type o m }, queue) := by
      rw [SocketInfo.prepareMessage, show sock.info.outMessage = none from hout]
    rw [prepareSocket, hprepare]
    exact ⟨out_ensureStateRw _, rfl⟩

/-- What `prepare_message` does with a socket and its queue, as far as messages go. -/
theorem prepareSocket_of_some {o : ByteOrder} {sock : Socket} {queue rest : List Bytes}
    {info : SocketInfo} (h : sock.info.prepareMessage o queue = some (info, rest)) :
    (prepareSocket o sock queue).1.out = info.outMessage ∧
      (prepareSocket o sock queue).2 = rest := by
  rw [prepareSocket, h]
  exact ⟨out_ensureStateRw _, rfl⟩

theorem State.connections_wrote (s : State) (e : SocketEvent) (rest : List SocketEvent)
    (sock : Socket) (tmp : Nat) :
    (s.wrote e rest sock tmp).connections = s.replace e.peer e.stream
      { sock with info := sock.info.afterWrite tmp } (s.connections e.peer).outQueue := by
  unfold wrote
  dsimp only
  split
  · rfl
  · split <;> rfl

theorem mem_replace {p q : Peer} {i : Nat} {sock sock' : Socket} {queue : List Bytes}
    (h : sock' ∈ (s.replace p i sock queue q).sockets) :
    (q = p ∧ sock' = sock) ∨ sock' ∈ (s.connections q).sockets := by
  by_cases hq : q = p
  · subst hq
    rw [State.replace, Function.update_self] at h
    rcases List.mem_or_eq_of_mem_set h with hmem | heq
    · exact Or.inr hmem
    · exact Or.inl ⟨rfl, heq⟩
  · rw [State.replace, Function.update_of_ne hq] at h
    exact Or.inr h

/-- The sockets then: only the one has changed. -/
theorem getElem?_replace {p : Peer} {i : Nat} {sock : Socket} (hsock : s.socket? p i = some sock)
    (sock' : Socket) (queue : List Bytes) (q : Peer) (j : Nat) :
    (s.replace p i sock' queue q).sockets[j]? =
      if (q, j) = (p, i) then some sock' else s.socket? q j := by
  by_cases hq : q = p
  · subst hq
    have hlt : i < (s.connections q).sockets.length := (List.getElem?_eq_some_iff.mp hsock).1
    rw [State.replace, Function.update_self]
    by_cases hj : j = i
    · subst hj
      rw [if_pos rfl, List.getElem?_set_self hlt]
    · rw [if_neg (fun h => hj (Prod.mk.inj h).2), List.getElem?_set_ne (Ne.symm hj)]
      rfl
  · rw [State.replace, Function.update_of_ne hq, if_neg (fun h => hq (Prod.mk.inj h).1)]
    rfl

/-- What a step keeps of the sockets: a property of them and of the messages in the queues. -/
structure SocketInvariant (g : Process) (P : Peer → Socket → Prop) (Q : Peer → Bytes → Prop) :
    Prop where
  init : ∀ p, P p (.init p.type)
  request : ∀ m, Q .server m
  data : ∀ m : DataMessage, m.Sendable → ∀ k, Q (.cluster k) (m.bytes g.order)
  ensureStateRo : ∀ p sock, P p sock → P p (ensureStateRo sock)
  ensureStateRw : ∀ p sock, P p sock → P p (ensureStateRw sock)
  prepareMessage : ∀ p sock queue info rest, P p sock → (∀ m ∈ queue, Q p m) →
    sock.info.prepareMessage g.order queue = some (info, rest) → P p { sock with info := info }
  wrote : ∀ p sock tmp, P p sock → tmp ≤ sock.info.outcount - sock.info.outpos →
    P p { sock with info := sock.info.afterWrite tmp }
  read : ∀ p sock info, P p sock → info.SameOut sock.info → P p { sock with info := info }

/-- What holds of the sockets and the queue of each connection. -/
def Holds (P : Peer → Socket → Prop) (Q : Peer → Bytes → Prop) (s : State) : Prop :=
  ∀ p, (∀ sock ∈ (s.connections p).sockets, P p sock) ∧ ∀ m ∈ (s.connections p).outQueue, Q p m

section Sockets

variable {P : Peer → Socket → Prop} {Q : Peer → Bytes → Prop}

theorem Holds.congr (h : Holds P Q s) (hconnections : s'.connections = s.connections) :
    Holds P Q s' := by
  intro p
  rw [hconnections]
  exact h p

/-- A message that is put into a queue. -/
theorem Holds.enqueue (h : Holds P Q s) {p : Peer} {m : Bytes} (hm : Q p m)
    (hconnections : s'.connections = (s.enqueue p m).connections) : Holds P Q s' := by
  intro q
  rw [hconnections, State.enqueue, State.setConnection]
  by_cases hq : q = p
  · subst hq
    simp only [Function.update_self]
    refine ⟨(h q).1, fun m' hm' => ?_⟩
    rcases List.mem_append.mp hm' with hm' | hm'
    · exact (h q).2 m' hm'
    · rw [List.mem_singleton.mp hm']
      exact hm
  · simp only [Function.update_of_ne hq]
    exact h q

/-- A socket that has changed, and its queue. -/
theorem Holds.replace (h : Holds P Q s) {p : Peer} {i : Nat} {sock : Socket} {queue : List Bytes}
    (hsock : P p sock) (hqueue : ∀ m ∈ queue, m ∈ (s.connections p).outQueue)
    (hconnections : s'.connections = s.replace p i sock queue) : Holds P Q s' := by
  intro q
  rw [hconnections]
  refine ⟨fun sock' hmem => ?_, fun m hm => ?_⟩
  · rcases mem_replace hmem with ⟨rfl, rfl⟩ | hmem
    · exact hsock
    · exact (h q).1 sock' hmem
  · by_cases hq : q = p
    · subst hq
      rw [State.replace, Function.update_self] at hm
      exact (h q).2 m (hqueue m hm)
    · rw [State.replace, Function.update_of_ne hq] at hm
      exact (h q).2 m hm

/-- What is left in the queue by `prepare_message` was there before. -/
theorem mem_of_prepareMessage {o : ByteOrder} {sock : Socket} {queue rest : List Bytes}
    {info : SocketInfo} (h : sock.info.prepareMessage o queue = some (info, rest)) :
    ∀ m ∈ rest, m ∈ queue := by
  intro m hm
  refine (takes_prepareSocket o).mem_of_mem_look sock queue ?_
  rwa [(prepareSocket_of_some h).2]

/-- `prepare_messages` keeps it. -/
theorem SocketInvariant.prepareMessages (hinv : SocketInvariant g P Q) {p : Peer}
    {c : GatewayConnection} (hsockets : ∀ sock ∈ c.sockets, P p sock)
    (hqueue : ∀ m ∈ c.outQueue, Q p m) :
    (∀ sock ∈ (c.prepareMessages g.order).sockets, P p sock) ∧
      ∀ m ∈ (c.prepareMessages g.order).outQueue, Q p m := by
  obtain ⟨sockets, queue⟩ := c
  refine ⟨?_, fun m hm => hqueue m (SharedQueue.mem_of_mem_visit (takes_prepareSocket _) _ _ hm)⟩
  simp only [GatewayConnection.prepareMessages] at hsockets hqueue ⊢
  induction sockets generalizing queue with
  | nil => exact fun sock hmem => absurd hmem List.not_mem_nil
  | cons sock sockets ih =>
      have hsock : P p (prepareSocket g.order sock queue).1 := by
        have hfirst := hsockets sock List.mem_cons_self
        unfold prepareSocket
        split
        · exact hinv.ensureStateRo p sock hfirst
        · next info rest hprepare =>
          exact hinv.ensureStateRw p _
            (hinv.prepareMessage p sock queue info rest hfirst hqueue hprepare)
      intro sock' hmem
      rcases List.mem_cons.mp hmem with rfl | hmem
      · exact hsock
      · exact ih _ (fun sock hmem => hsockets sock (List.mem_cons_of_mem _ hmem))
          (fun m hm => hqueue m ((takes_prepareSocket _).mem_of_mem_look sock queue hm)) sock' hmem

theorem SocketInvariant.step (hinv : SocketInvariant g P Q) (h : Holds P Q s)
    (hchange : Change g s a s') : Holds P Q s' := by
  have hmem : ∀ {p i sock}, s.socket? p i = some sock → P p sock := fun hsock =>
    (h _).1 _ (List.mem_of_getElem? hsock)
  cases hchange with
  | same hconnections => exact h.congr hconnections
  | poll _ _ _ heq =>
      subst heq
      exact h
  | request m _ heq =>
      subst heq
      exact h.enqueue (hinv.request m) rfl
  | data m _ _ _ hm _ heq =>
      subst heq
      exact h.enqueue (hinv.data m hm _) rfl
  | prepare heq =>
      subst heq
      exact fun p => hinv.prepareMessages (h p).1 (h p).2
  | nothingToWrite e _ sock _ hsock heq =>
      subst heq
      exact h.replace (hinv.ensureStateRo _ _ (hmem hsock)) (fun m hm => hm) rfl
  | prepareMessage e _ sock info queue _ hsock hprepare heq =>
      subst heq
      exact h.replace (hinv.prepareMessage _ _ _ _ _ (hmem hsock) (h _).2 hprepare)
        (mem_of_prepareMessage hprepare) rfl
  | wrote e rest sock tmp _ hsock htmp heq =>
      subst heq
      exact h.replace (hinv.wrote _ _ tmp (hmem hsock) htmp) (fun m hm => hm)
        (s.connections_wrote e rest sock tmp)
  | read e _ _ sock info _ hsock hinfo hconnections =>
      exact h.replace (hinv.read _ _ _ (hmem hsock) hinfo) (fun m hm => hm) hconnections

/-- **What every step keeps of the sockets** holds in every run. -/
theorem SocketInvariant.run (hinv : SocketInvariant g P Q) (h : Run g trace s) : Holds P Q s := by
  induction h with
  | start =>
      intro p
      cases p with
      | server =>
          refine ⟨fun sock hmem => ?_, fun m hm => absurd hm List.not_mem_nil⟩
          simp only [State.start, Process.connection] at hmem
          split at hmem
          · rw [List.mem_singleton.mp hmem]
            exact hinv.init .server
          · exact absurd hmem List.not_mem_nil
      | cluster k =>
          refine ⟨fun sock hmem => ?_, fun m hm => absurd hm List.not_mem_nil⟩
          simp only [State.start, Process.connection] at hmem
          split at hmem
          · rw [List.eq_of_mem_replicate hmem]
            exact hinv.init (.cluster k)
          · exact absurd hmem List.not_mem_nil
  | step _ hstep ih => exact hinv.step ih hstep.change

end Sockets

theorem State.connections_enqueue (s : State) (p : Peer) (m : Bytes) :
    (s.enqueue p m).connections = Function.update s.connections p
      ⟨(s.connections p).sockets, (s.connections p).outQueue ++ [m]⟩ := rfl

/-- A connection keeps its sockets. -/
def Shaped (g : Process) (s : State) : Prop :=
  ∀ p, (s.connections p).sockets.length = (g.connection p).sockets.length

theorem Shaped.enqueue (h : Shaped g s) {p : Peer} {m : Bytes}
    (hconnections : s'.connections = (s.enqueue p m).connections) : Shaped g s' := by
  intro q
  rw [hconnections, State.connections_enqueue, ← h q]
  by_cases hq : q = p
  · subst hq
    rw [Function.update_self]
  · rw [Function.update_of_ne hq]

theorem Shaped.replace (h : Shaped g s) {p : Peer} {i : Nat} {sock : Socket}
    {queue : List Bytes} (hconnections : s'.connections = s.replace p i sock queue) :
    Shaped g s' := by
  intro q
  rw [hconnections, State.replace, ← h q]
  by_cases hq : q = p
  · subst hq
    rw [Function.update_self, List.length_set]
  · rw [Function.update_of_ne hq]

/-- The connections that have sockets. -/
theorem Process.sockets_server_ne (hmaster : g.gatewayRank = 0) :
    (g.connection .server).sockets ≠ [] := by
  rw [connection]
  simp [hmaster]

theorem Process.sockets_cluster_ne_iff {k : Nat} :
    (g.connection (.cluster k)).sockets ≠ [] ↔ k < g.clusterCount ∧ k ≠ g.clusterRank := by
  have hpos := (g.streams_pos k).ne'
  rw [connection]
  split
  · next h => simp [List.replicate_eq_nil_iff, hpos, h.1, h.2]
  · next h => simpa using h

theorem Shaped.step (h : Shaped g s) (hchange : Change g s a s') : Shaped g s' := by
  cases hchange with
  | same hconnections =>
      intro p
      rw [hconnections]
      exact h p
  | poll _ _ _ heq =>
      subst heq
      exact h
  | request m hmaster heq =>
      subst heq
      exact h.enqueue rfl
  | data m _ _ _ _ _ heq =>
      subst heq
      exact h.enqueue rfl
  | prepare heq =>
      subst heq
      intro p
      rw [← h p]
      exact SharedQueue.length_visit _ _
  | nothingToWrite _ _ _ _ _ heq =>
      subst heq
      exact h.replace rfl
  | prepareMessage _ _ _ _ _ _ _ _ heq =>
      subst heq
      exact h.replace rfl
  | wrote e rest sock tmp _ _ _ heq =>
      subst heq
      exact h.replace (s.connections_wrote e rest sock tmp)
  | read _ _ _ _ _ _ _ _ hconnections => exact h.replace hconnections

/-- The connections of a run keep their sockets. -/
theorem shaped_of_run (h : Run g trace s) : Shaped g s := by
  induction h with
  | start =>
      intro p
      cases p <;> rfl
  | step _ hstep ih => exact ih.step hstep.change

/-! ### A queue without sockets -/

/-- A data message for the cluster of the gateway itself. -/
def Process.Own (g : Process) (m : Bytes) : Prop := getClusterRank (dstPid g.order m) = g.clusterRank

instance (m : Bytes) : Decidable (g.Own m) :=
  inferInstanceAs (Decidable (getClusterRank (dstPid g.order m) = g.clusterRank))

/-- No data message for the own cluster is received. -/
def Process.ReceivesForOthers (g : Process) (trace : List Action) : Prop :=
  ∀ m, .data m ∈ trace → ¬ g.Own m

/-- **A queue without sockets** stays as it is, unless it is that of the own cluster and a message
comes for it. -/
theorem Change.outQueue_of_nil (hshaped : Shaped g s) (h : Change g s a s') {p : Peer}
    (hnil : (g.connection p).sockets = []) :
    (s'.connections p).outQueue = (s.connections p).outQueue ∨
      p = .cluster g.clusterRank ∧ ∃ m, a = .data m ∧ g.Own m ∧
        (s'.connections p).outQueue = (s.connections p).outQueue ++ [m] := by
  have hsockets : (s.connections p).sockets = [] := by
    rw [← List.length_eq_zero_iff, hshaped p, hnil, List.length_nil]
  have henqueue : ∀ {q m}, p ≠ q → ((s.enqueue q m).connections p).outQueue =
      (s.connections p).outQueue := fun hne => by
    rw [State.connections_enqueue, Function.update_of_ne hne]
  have hreplace : ∀ {q i sock sock' queue}, s.socket? q i = some sock →
      (s.replace q i sock' queue p).outQueue = (s.connections p).outQueue := fun hsock => by
    rw [State.replace, Function.update_of_ne]
    rintro rfl
    rw [State.socket?, hsockets] at hsock
    cases hsock
  cases h with
  | same hconnections =>
      left
      rw [hconnections]
  | poll _ _ _ heq =>
      subst heq
      exact Or.inl rfl
  | request m hmaster heq =>
      subst heq
      exact Or.inl (henqueue fun hp => Process.sockets_server_ne hmaster (hp ▸ hnil))
  | data m count ha _ _ hcluster heq =>
      subst heq
      by_cases hp : p = .cluster (getClusterRank (dstPid g.order (m.bytes g.order)))
      · right
        have hown : getClusterRank (dstPid g.order (m.bytes g.order)) = g.clusterRank := by
          by_contra hne
          refine Process.sockets_cluster_ne_iff.mpr ⟨?_, hne⟩ (hp ▸ hnil)
          rwa [dstPid_bytes]
        refine ⟨hown ▸ hp, _, ha, hown, ?_⟩
        rw [hp]
        simp only [State.enqueueDataMessage, State.enqueue, State.setConnection,
          Function.update_self]
      · exact Or.inl (henqueue hp)
  | prepare heq =>
      subst heq
      left
      show (SharedQueue.visit _ (s.connections p).sockets (s.connections p).outQueue).2 = _
      rw [hsockets]
      rfl
  | nothingToWrite _ _ _ _ hsock heq =>
      subst heq
      exact Or.inl (hreplace hsock)
  | prepareMessage _ _ _ _ _ _ hsock _ heq =>
      subst heq
      exact Or.inl (hreplace hsock)
  | wrote e rest sock tmp _ hsock _ heq =>
      subst heq
      rw [s.connections_wrote e rest sock tmp]
      exact Or.inl (hreplace hsock)
  | read _ _ _ _ _ _ hsock _ hconnections =>
      rw [hconnections]
      exact Or.inl (hreplace hsock)

/-- **Nothing is queued without a socket** if no message for the own cluster is received. -/
theorem outQueue_eq_nil_of_run (h : Run g trace s) (hothers : g.ReceivesForOthers trace) {p : Peer}
    (hnil : (g.connection p).sockets = []) : (s.connections p).outQueue = [] := by
  induction h with
  | start => cases p <;> rfl
  | step h hstep ih =>
      rcases hstep.change.outQueue_of_nil (shaped_of_run h) hnil with hsame | ⟨_, m, rfl, hown, _⟩
      · rw [hsame]
        exact ih fun m hm => hothers m (List.mem_append_left _ hm)
      · exact absurd hown (hothers m (List.mem_append_right _ List.mem_cons_self))

/-- **A message for the own cluster** is queued there for ever. -/
theorem mem_outQueue_of_run (h : Run g trace s) {m : Bytes} (hm : .data m ∈ trace)
    (hown : g.Own m) : m ∈ (s.connections (.cluster g.clusterRank)).outQueue := by
  have hnil : (g.connection (.cluster g.clusterRank)).sockets = [] := by
    by_contra hne
    exact (Process.sockets_cluster_ne_iff.mp hne).2 rfl
  induction h with
  | start => exact absurd hm List.not_mem_nil
  | @step trace s s' a h hstep ih =>
      have hkeeps := hstep.change.outQueue_of_nil (shaped_of_run h) hnil
      rcases List.mem_append.mp hm with hm | hm
      · rcases hkeeps with hsame | ⟨_, m', _, _, hmore⟩
        · rw [hsame]
          exact ih hm
        · rw [hmore]
          exact List.mem_append_left _ (ih hm)
      · rw [← List.mem_singleton.mp hm] at hstep
        cases hstep with
        | data =>
            rw [Process.Own] at hown
            simp only [State.enqueueDataMessage, State.enqueue, State.setConnection, hown,
              Function.update_self, List.mem_append, List.mem_singleton, or_true]

/-! ### A run -/

/-- The gateway of the first of two clusters, with one process each. -/
def firstOfTwo : Process where
  clusterCount := 2
  clusterRank := 0
  gatewayRank := 0
  myPid := setPid 0 1
  streams := fun _ => 1
  streams_pos := fun _ => Nat.one_pos
  order := .little

/-- An empty message to the process of the second cluster. -/
def emptyMessage : DataMessage where
  opcode := 50
  srcPid := setPid 0 0
  dstPid := setPid 1 0
  length := dataMessageSize
  comm := 0
  source := 0
  dest := 1
  tag := 0
  count := 0
  payload := []

theorem sendable_emptyMessage : emptyMessage.Sendable := ⟨rfl, by decide⟩

theorem getClusterRank_emptyMessage : getClusterRank emptyMessage.dstPid = 1 :=
  getClusterRank_setPid (by decide) (by decide)

/-- The messages from the server and from MPI are handled when there are none. -/
theorem run_receiveData (g : Process) :
    Run g [.internal, .reply none, .internal, .internal, .internal]
      { State.start g with place := .receiveData 0 } := by
  have h₁ := Run.start.step (g := g) (Step.noRequest rfl)
  have h₂ := h₁.step (Step.reply (m := none) rfl rfl)
  have h₃ := h₂.step (Step.serverForwarded rfl rfl)
  have h₄ := h₃.step (Step.dataForwarded rfl rfl)
  exact h₄.step (Step.pollRequests rfl (List.Sublist.refl _))

end MainLoop

end EsalsaMpi
