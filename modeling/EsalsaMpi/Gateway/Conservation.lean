import EsalsaMpi.Gateway.Network

/-!
# No message between clusters is lost

With several streams the messages from one process to another may overtake each other.  But
whatever the number of streams, each of them stays on its route, and is at every time in exactly
one place of it: with the process, in the queue of the connection, on one of its sockets, at the
gateway at the other end, or handed over.  So nothing is lost and nothing is handed over twice,
and nobody but the gateway at the end of the route hands it over: `Setup.conserves`.
-/

namespace EsalsaMpi

open Queues

/-- The messages that the writer has dequeued and the reader has not enqueued. -/
def Stream.underway (s : Stream) : List Bytes := s.dequeued.drop s.enqueued.length

theorem Stream.Inv.enqueued_append_underway {k : LinkKind} {s : Stream} (h : s.Inv k) :
    s.enqueued ++ s.underway = s.dequeued := by
  obtain ⟨rest, hrest⟩ := h.isPrefix_enqueued
  rw [underway, ← hrest, List.drop_left]

/-- What a step takes from the queue, it adds to the messages dequeued. -/
theorem Stream.Step.exists_taken {k : LinkKind} {queue queue' : List Bytes} {s s' : Stream}
    {enqueued : Option Bytes} (hstep : Stream.Step k queue s enqueued queue' s') :
    ∃ taken, queue = taken ++ queue' ∧ s'.dequeued = s.dequeued ++ taken := by
  cases hstep with
  | dequeue => exact ⟨[_], rfl, rfl⟩
  | write => exact ⟨[], rfl, (List.append_nil _).symm⟩
  | readBlocked => exact ⟨[], rfl, (List.append_nil _).symm⟩
  | readAgain => exact ⟨[], rfl, (List.append_nil _).symm⟩
  | readEnqueued => exact ⟨[], rfl, (List.append_nil _).symm⟩

namespace Network

variable {u : Setup} {s s' : Network} {c : Connection} {i : Nat} {queue : List Bytes}
  {stream : Stream} {enqueued : Option Bytes}

/-- What the sockets of a connection hold together. -/
def onSockets (u : Setup) (s : Network) (f : Stream → List Bytes) (c : Connection) : List Bytes :=
  (List.range u.streams).flatMap fun i => f (s.streams c i)

/-- **The places of the messages** from `p` to `q`: what has been handed over, what waits at the
gateway at the end, what is on the sockets, in the queue, and with the process. -/
def places (u : Setup) (s : Network) (p q : Pid) : List Bytes :=
  between u p q (s.handed (lastGateway u p q)) ++
    (between u p q (s.incoming (lastGateway u p q)) ++
      (between u p q (s.onSockets u Stream.underway (u.route p (getClusterRank q))) ++
        (between u p q (s.outQueue (u.route p (getClusterRank q))) ++
          between u p q (s.mpi p))))

/-- Each message from `p` to `q` is in one place, and no gateway hands it over but the one at the
end of its route. -/
structure Conserved (u : Setup) (s : Network) (p q : Pid) : Prop where
  places : (s.places u p q).Perm (between u p q (s.sent p))
  elsewhere : ∀ gateway, gateway ≠ lastGateway u p q → between u p q (s.handed gateway) = []

end Network

/-- In every run the messages are conserved. -/
def Setup.Conserves (u : Setup) : Prop :=
  ∀ s, Network.Reachable u s → ∀ p q, s.Conserved u p q

namespace Network

variable {u : Setup} {s s' : Network} {c : Connection} {i : Nat} {queue : List Bytes}
  {stream : Stream} {enqueued : Option Bytes}

/-- One socket of the network changes. -/
theorem streams_socket_apply (s : Network) (c : Connection) (i : Nat) (queue : List Bytes)
    (stream : Stream) (enqueued : Option Bytes) (c' : Connection) (j : Nat) :
    (s.socket c i queue stream enqueued).streams c' j =
      if c' = c ∧ j = i then stream else s.streams c' j := by
  by_cases hc : c' = c
  · subst hc
    simp
  · simp [socket, hc]

/-- The sockets of a connection together, after one of them has changed. -/
theorem onSockets_socket {f : Stream → List Bytes} {xs : List Bytes} (hi : i < u.streams)
    (hf : f stream = f (s.streams c i) ++ xs) (c' : Connection) :
    ((s.socket c i queue stream enqueued).onSockets u f c').Perm
      (s.onSockets u f c' ++ if c' = c then xs else []) := by
  unfold onSockets
  by_cases hc : c' = c
  · subst hc
    rw [if_pos rfl]
    refine flatMap_perm_append List.nodup_range (List.mem_range.mpr hi) ?_ fun j hj => ?_
    · rw [streams_socket_apply, if_pos ⟨rfl, rfl⟩]
      exact hf
    · rw [streams_socket_apply, if_neg fun h => hj h.2]
  · simp only [streams_socket_apply, hc, false_and, if_false, List.append_nil]
    exact List.Perm.refl _

/-- What is on one socket is on the sockets. -/
theorem mem_onSockets {f : Stream → List Bytes} {m : Bytes} (hi : i < u.streams)
    (hm : m ∈ f (s.streams c i)) : m ∈ s.onSockets u f c :=
  List.mem_flatMap.mpr ⟨i, List.mem_range.mpr hi, hm⟩

/-- **What holds in a run with any number of streams.**  As with one stream, but for the order of
the messages that take different sockets. -/
structure Account (u : Setup) (s : Network) : Prop where
  stream : ∀ c, ∀ i < u.streams, (s.streams c i).Inv (.data u.order)
  queue : ∀ c, ∀ m ∈ s.outQueue c, (LinkKind.data u.order).WellSized m
  mpi : ∀ p, ∀ m ∈ s.mpi p, (LinkKind.data u.order).WellSized m ∧ srcPid u.order m = p
  routed : ∀ c, ∀ m ∈ s.onSockets u Stream.dequeued c ++ s.outQueue c,
    u.route (srcPid u.order m) (getClusterRank (dstPid u.order m)) = c
  sending : ∀ p target,
    ((s.onSockets u Stream.dequeued (u.route p target) ++ s.outQueue (u.route p target)).filter
        (fun m => srcPid u.order m = p) ++
      (s.mpi p).filter (fun m => getClusterRank (dstPid u.order m) = target)).Perm
    ((s.sent p).filter fun m => getClusterRank (dstPid u.order m) = target)
  receiving : ∀ c : Connection,
    ((s.handed c.receiver ++ s.incoming c.receiver).filter
        (fun m => getClusterRank (srcPid u.order m) = c.cluster)).Perm
      (s.onSockets u Stream.enqueued c)

theorem account_start (u : Setup) : (start u).Account u where
  stream := fun _ _ _ => Stream.inv_start _
  queue := by simp [start]
  mpi := by simp [start]
  routed := by simp [start, onSockets, Stream.start]
  sending := by simp [start, onSockets, Stream.start]
  receiving := by simp [start, onSockets, Stream.start]

theorem Account.send (h : s.Account u) {p : Pid} {m : Bytes}
    (hm : (LinkKind.data u.order).WellSized m) (hsrc : srcPid u.order m = p) :
    (s.send p m).Account u where
  stream := h.stream
  queue := h.queue
  mpi := by
    intro p' m' hm'
    rcases mem_push.mp hm' with hm' | ⟨hp, hm'⟩
    · exact h.mpi p' m' hm'
    · rw [List.mem_singleton.mp hm', hp]
      exact ⟨hm, hsrc⟩
  routed := h.routed
  sending := by
    intro p' target
    have hbefore := h.sending p' target
    simp only [Network.send, push_apply, List.filter_append] at hbefore ⊢
    rw [← List.append_assoc]
    exact hbefore.append_right _
  receiving := h.receiving

theorem Account.receive (h : s.Account u) {p : Pid} {m : Bytes} {rest : List Bytes}
    (hmpi : s.mpi p = m :: rest) : (s.receive u p m).Account u := by
  obtain ⟨hm, hsrc⟩ := h.mpi p m (by rw [hmpi]; exact List.mem_cons_self)
  refine
    { stream := h.stream
      queue := ?_
      mpi := fun p' m' hm' => h.mpi p' m' (mem_of_mem_pop hm')
      routed := ?_
      sending := ?_
      receiving := h.receiving }
  · intro c m' hm'
    rcases mem_push.mp hm' with hm' | ⟨_, hm'⟩
    · exact h.queue c m' hm'
    · rw [List.mem_singleton.mp hm']
      exact hm
  · intro c m' hm'
    rcases List.mem_append.mp hm' with hm' | hm'
    · exact h.routed c m' (List.mem_append_left _ hm')
    · rcases mem_push.mp hm' with hm' | ⟨hc, hm'⟩
      · exact h.routed c m' (List.mem_append_right _ hm')
      · rw [List.mem_singleton.mp hm', hsrc, hc]
  · intro p' target
    have hbefore := h.sending p' target
    rw [pop_apply hmpi p'] at hbefore
    -- the message moves from the front of one list to the end of another
    have hmove : (if u.route p' target =
          u.route p (getClusterRank (dstPid u.order m)) then [m] else []).filter
          (fun m => srcPid u.order m = p') =
        (if p' = p then [m] else []).filter
          fun m => getClusterRank (dstPid u.order m) = target := by
      by_cases hp : p' = p
      · subst hp
        by_cases htarget : getClusterRank (dstPid u.order m) = target
        · simp [htarget, hsrc]
        · have hroute : u.route p' target ≠
              u.route p' (getClusterRank (dstPid u.order m)) := by
            intro heq
            exact htarget (congrArg Connection.target heq).symm
          simp [hroute, htarget]
      · have hne : srcPid u.order m ≠ p' := fun heq => hp (heq.symm.trans hsrc)
        rw [if_neg hp]
        split <;> simp [hne]
    simp only [List.filter_append, ← List.append_assoc] at hbefore
    simp only [Network.receive, onSockets, push_apply, List.filter_append, hmove,
      ← List.append_assoc]
    exact hbefore

/-- A message that a socket has dequeued keeps to the connection. -/
theorem Account.routed_dequeued (h : s.Account u) (hi : i < u.streams) {m : Bytes}
    (hm : m ∈ (s.streams c i).dequeued) :
    u.route (srcPid u.order m) (getClusterRank (dstPid u.order m)) = c :=
  h.routed c m (List.mem_append_left _ (mem_onSockets hi hm))

/-- A step of a socket moves messages between the queue and the sockets of its connection. -/
theorem dequeued_socket (hi : i < u.streams)
    (hstep : Stream.Step (.data u.order) (s.outQueue c) (s.streams c i) enqueued queue stream)
    (c' : Connection) :
    ((s.socket c i queue stream enqueued).onSockets u Stream.dequeued c' ++
        (s.socket c i queue stream enqueued).outQueue c').Perm
      (s.onSockets u Stream.dequeued c' ++ s.outQueue c') := by
  obtain ⟨taken, hqueue, hdequeued⟩ := hstep.exists_taken
  have hsplit : s.outQueue c' = (if c' = c then taken else []) ++
      (s.socket c i queue stream enqueued).outQueue c' := by
    by_cases hc : c' = c
    · subst hc
      rw [if_pos rfl, outQueue_socket, hqueue]
    · rw [if_neg hc, List.nil_append]
      exact (Function.update_of_ne hc _ _).symm
  rw [hsplit, ← List.append_assoc]
  exact (onSockets_socket hi hdequeued c').append_right _

/-- Of the messages that a socket enqueues, those from the cluster of a connection. -/
theorem filter_enqueued {c' : Connection} {ms : List Bytes}
    (hms : ∀ m ∈ ms, getClusterRank (srcPid u.order m) = c.cluster) :
    (if c'.receiver = c.receiver then ms else []).filter
        (fun m => getClusterRank (srcPid u.order m) = c'.cluster) =
      if c' = c then ms else [] := by
  obtain ⟨cluster, gateway, target⟩ := c
  obtain ⟨cluster', gateway', target'⟩ := c'
  by_cases hcluster : cluster' = cluster
  · subst hcluster
    have hall : ms.filter (fun m => getClusterRank (srcPid u.order m) = cluster') = ms :=
      List.filter_eq_self.mpr fun m hm => decide_eq_true (hms m hm)
    by_cases hrest : gateway' = gateway ∧ target' = target
    · simp [Connection.receiver, hrest, hall]
    · have hne : ¬ (target' = target ∧ gateway' = gateway) := fun h => hrest ⟨h.2, h.1⟩
      simp [Connection.receiver, hrest, hne]
  · have hnone : ms.filter (fun m => getClusterRank (srcPid u.order m) = cluster') = [] := by
      refine List.filter_eq_nil_iff.mpr fun m hm => ?_
      rw [decide_eq_true_eq, hms m hm]
      exact fun h => hcluster h.symm
    rw [if_neg (show ¬ (⟨cluster', gateway', target'⟩ : Connection) = ⟨cluster, gateway, target⟩
      from fun h => hcluster (congrArg Connection.cluster h))]
    split
    · exact hnone
    · exact List.filter_nil

theorem Account.socket (h : s.Account u) (hi : i < u.streams)
    (hstep : Stream.Step (.data u.order) (s.outQueue c) (s.streams c i) enqueued queue stream) :
    (s.socket c i queue stream enqueued).Account u := by
  have hinv := (h.stream c i hi).step (h.queue c) hstep
  have hboth := dequeued_socket hi hstep
  refine
    { stream := ?_
      queue := ?_
      mpi := h.mpi
      routed := fun c' m hm => h.routed c' m ((hboth c').mem_iff.mp hm)
      sending := fun p target => (((hboth _).filter _).append_right _).trans (h.sending p target)
      receiving := ?_ }
  · intro c' j hj
    rw [streams_socket_apply]
    split
    · exact hinv
    · exact h.stream c' j hj
  · intro c' m hm
    by_cases hc : c' = c
    · subst hc
      rw [outQueue_socket] at hm
      exact h.queue c' m (hstep.queue m hm)
    · simp only [Network.socket, Function.update_of_ne hc] at hm
      exact h.queue c' m hm
  · intro c'
    have hsource : ∀ m ∈ enqueued.toList, getClusterRank (srcPid u.order m) = c.cluster := by
      intro m hm
      have hmem : m ∈ stream.dequeued := by
        refine hinv.isPrefix_enqueued.mem ?_
        rw [hstep.enqueued]
        exact List.mem_append_right _ hm
      obtain ⟨taken, hqueue, hdequeued⟩ := hstep.exists_taken
      rw [hdequeued] at hmem
      rcases List.mem_append.mp hmem with hmem | hmem
      · exact congrArg Connection.cluster (h.routed_dequeued hi hmem)
      · have hm' : m ∈ s.outQueue c := by
          rw [hqueue]
          exact List.mem_append_left _ hmem
        exact congrArg Connection.cluster (h.routed c m (List.mem_append_right _ hm'))
    refine List.Perm.trans ?_ (onSockets_socket hi hstep.enqueued c').symm
    have hbefore := h.receiving c'
    rw [← filter_enqueued hsource]
    simp only [Network.socket, push_apply, ← List.append_assoc, List.filter_append] at hbefore ⊢
    exact hbefore.append_right _

/-- What waits at a gateway has been read as a whole. -/
theorem Account.isFrame_incoming (h : s.Account u) {gateway : Gateway} {m : Bytes}
    (hm : m ∈ s.incoming gateway) : (LinkKind.data u.order).framing.IsFrame m := by
  have hreceiving := h.receiving ⟨getClusterRank (srcPid u.order m), gateway.rank,
    gateway.cluster⟩
  have hmem := hreceiving.mem_iff.mp (List.mem_filter.mpr
    ⟨List.mem_append_right _ hm, decide_eq_true rfl⟩)
  obtain ⟨i, hi, hmem⟩ := List.mem_flatMap.mp hmem
  exact (h.stream _ i (List.mem_range.mp hi)).enqueued m hmem

theorem Account.forward (h : s.Account u) {gateway : Gateway} {m : Bytes} {rest : List Bytes}
    (hincoming : s.incoming gateway = m :: rest) : (s.forward u gateway m).Account u := by
  have hfirst : m ∈ s.incoming gateway := by
    rw [hincoming]
    exact List.mem_cons_self
  have hframe := h.isFrame_incoming hfirst
  refine { h with receiving := ?_ }
  intro c
  have hbefore := h.receiving c
  rw [pop_apply hincoming c.receiver] at hbefore
  simp only [Network.forward, push_apply, List.filter_append, take_headerLength hframe,
    ← List.append_assoc] at hbefore ⊢
  exact hbefore

/-- Every step keeps the account. -/
theorem Account.step (h : s.Account u) (hstep : Step u s s') : s'.Account u := by
  cases hstep with
  | send _ _ hsrc hm => exact h.send (hm.wellSized u.order) ((srcPid_bytes _ _).trans hsrc)
  | receive hmpi => exact h.receive hmpi
  | socket _ hi hstep => exact h.socket hi hstep
  | forward hincoming => exact h.forward hincoming

theorem account_of_reachable (h : Reachable u s) : s.Account u := by
  induction h with
  | refl => exact account_start u
  | tail _ hstep ih => exact ih.step hstep

/-- Nothing has been on the sockets that a gateway would have to its own cluster. -/
theorem streams_own_of_reachable (h : Reachable u s) (hc : c.cluster = c.target) (i : Nat) :
    s.streams c i = .start (.data u.order) := by
  induction h with
  | refl => rfl
  | tail _ hstep ih =>
      cases hstep with
      | send => exact ih
      | receive => exact ih
      | socket hother =>
          rw [streams_socket_apply, if_neg]
          · exact ih
          · rintro ⟨rfl, _⟩
            exact hother hc
      | forward => exact ih

/-- What a process has sent has its PID. -/
theorem Account.srcPid_sent (h : s.Account u) {p : Pid} {m : Bytes} (hm : m ∈ s.sent p) :
    srcPid u.order m = p := by
  have hmem := (h.sending p (getClusterRank (dstPid u.order m))).mem_iff.mpr
    (List.mem_filter.mpr ⟨hm, decide_eq_true rfl⟩)
  rcases List.mem_append.mp hmem with hmem | hmem
  · exact of_decide_eq_true (List.mem_filter.mp hmem).2
  · exact (h.mpi p m (List.mem_filter.mp hmem).1).2

/-- What is queued has been sent. -/
theorem Account.sent_of_queue (h : s.Account u) {m : Bytes} (hm : m ∈ s.outQueue c) :
    m ∈ s.sent (srcPid u.order m) ∧ getClusterRank (srcPid u.order m) = c.cluster ∧
      getClusterRank (dstPid u.order m) = c.target := by
  have hroute := h.routed c m (List.mem_append_right _ hm)
  have hmem := (h.sending (srcPid u.order m) (getClusterRank (dstPid u.order m))).mem_iff.mp
    (List.mem_append_left _ (List.mem_filter.mpr
      ⟨List.mem_append_right _ (by rwa [hroute]), decide_eq_true rfl⟩))
  exact ⟨(List.mem_filter.mp hmem).1, congrArg Connection.cluster hroute,
    congrArg Connection.target hroute⟩

/-- The sockets have enqueued what they have dequeued, but for what is on its way. -/
theorem Account.onSockets_dequeued (h : s.Account u) (c : Connection) :
    (s.onSockets u Stream.enqueued c ++ s.onSockets u Stream.underway c).Perm
      (s.onSockets u Stream.dequeued c) := by
  have hsockets : ∀ is : List Nat, (∀ i ∈ is, i < u.streams) →
      (is.flatMap (fun i => (s.streams c i).enqueued) ++
        is.flatMap fun i => (s.streams c i).underway).Perm
      (is.flatMap fun i => (s.streams c i).dequeued) := by
    intro is his
    induction is with
    | nil => exact List.Perm.refl _
    | cons i is ih =>
        have hi := (h.stream c i (his i List.mem_cons_self)).enqueued_append_underway
        have htail := ih fun j hj => his j (List.mem_cons_of_mem _ hj)
        simp only [List.flatMap_cons, ← hi, List.append_assoc]
        refine List.Perm.append_left _ ?_
        rw [← List.append_assoc]
        refine (List.perm_append_comm.append_right _).trans ?_
        rw [List.append_assoc]
        exact htail.append_left _
  exact hsockets _ fun i hi => List.mem_range.mp hi

/-- The messages in front of the connection that they take. -/
theorem Account.between_sent (h : s.Account u) (p q : Pid) :
    (between u p q (s.onSockets u Stream.dequeued (u.route p (getClusterRank q))) ++
        (between u p q (s.outQueue (u.route p (getClusterRank q))) ++
          between u p q (s.mpi p))).Perm (between u p q (s.sent p)) := by
  have hsending := (h.sending p (getClusterRank q)).filter
    (fun m => srcPid u.order m = p ∧ dstPid u.order m = q)
  change (between u p q _).Perm (between u p q _) at hsending
  rw [between_append, between_filter _ fun m hsrc _ => decide_eq_true hsrc,
    between_filter _ fun m _ hdst => decide_eq_true (congrArg getClusterRank hdst),
    between_filter _ fun m _ hdst => decide_eq_true (congrArg getClusterRank hdst),
    between_append, List.append_assoc] at hsending
  exact hsending

/-- The messages behind the connection that they take. -/
theorem Account.between_handed (h : s.Account u) (p q : Pid) :
    (between u p q (s.handed (lastGateway u p q)) ++
        between u p q (s.incoming (lastGateway u p q))).Perm
      (between u p q (s.onSockets u Stream.enqueued (u.route p (getClusterRank q)))) := by
  have hreceiving := (h.receiving (u.route p (getClusterRank q))).filter
    (fun m => srcPid u.order m = p ∧ dstPid u.order m = q)
  change (between u p q _).Perm (between u p q _) at hreceiving
  have hall : ∀ m, srcPid u.order m = p → dstPid u.order m = q →
      decide (getClusterRank (srcPid u.order m) =
        (u.route p (getClusterRank q)).cluster) = true :=
    fun m hsrc _ => decide_eq_true (congrArg getClusterRank hsrc)
  rw [between_filter _ hall, between_append] at hreceiving
  exact hreceiving

/-- A gateway hands no messages over that do not belong to it. -/
theorem Account.between_elsewhere (h : s.Account u) {p q : Pid} {gateway : Gateway}
    (hne : gateway ≠ lastGateway u p q) : between u p q (s.handed gateway) = [] := by
  apply List.filter_eq_nil_iff.mpr
  intro m hm hboth
  obtain ⟨hsrc, hdst⟩ := of_decide_eq_true hboth
  have hreceiving := h.receiving ⟨getClusterRank p, gateway.rank, gateway.cluster⟩
  have hmem := hreceiving.mem_iff.mp (List.mem_filter.mpr
    ⟨List.mem_append_left _ hm, decide_eq_true (congrArg getClusterRank hsrc)⟩)
  obtain ⟨i, hi, hmem⟩ := List.mem_flatMap.mp hmem
  have hi' := List.mem_range.mp hi
  have hroute := h.routed_dequeued hi' ((h.stream _ i hi').isPrefix_enqueued.mem hmem)
  rw [hsrc, hdst, Setup.route, Connection.mk.injEq] at hroute
  obtain ⟨_, hrank, hcluster⟩ := hroute
  obtain ⟨cluster, rank⟩ := gateway
  simp only at hrank hcluster
  exact hne (by rw [lastGateway, ← hrank, ← hcluster])

theorem Account.conserved (h : s.Account u) (p q : Pid) : s.Conserved u p q where
  places := by
    have hsockets := (h.onSockets_dequeued (u.route p (getClusterRank q))).filter
      (fun m => srcPid u.order m = p ∧ dstPid u.order m = q)
    change (between u p q _).Perm (between u p q _) at hsockets
    rw [between_append] at hsockets
    -- from the end of the route back to the process
    have hread : (s.places u p q).Perm
        (between u p q (s.onSockets u Stream.dequeued (u.route p (getClusterRank q))) ++
          (between u p q (s.outQueue (u.route p (getClusterRank q))) ++
            between u p q (s.mpi p))) := by
      unfold Network.places
      simp only [← List.append_assoc]
      exact ((((h.between_handed p q).append_right _).trans hsockets).append_right _).append_right _
    exact hread.trans (h.between_sent p q)
  elsewhere := fun _ hne => h.between_elsewhere hne

end Network

/-- **No message is lost and none is handed over twice**, whatever the number of streams. -/
theorem Setup.conserves (u : Setup) : u.Conserves :=
  fun _ h p q => (Network.account_of_reachable h).conserved p q

end EsalsaMpi
