import EsalsaMpi.Backend.Messaging
import EsalsaMpi.Gateway.Socket
import EsalsaMpi.Library.Queues
import EsalsaMpi.Server.World

/-!
# Data messages between clusters

A process hands its data messages to the gateway of its cluster that belongs
to its rank, in MPI messages that do not overtake each other.  The gateway
queues them by the cluster they go to.  The queue of a cluster is drained by
the sockets of one gateway connection, each of which takes a new message when
it has written the last one.  The gateway at the other end puts what it reads
from any socket into one queue, from which it forwards the messages to their
destinations.  The queue of the own cluster has no sockets.

With one socket the messages from one process to another arrive in the order
in which they were sent.  With several, a message may overtake another:
`deliversInOrder_iff`.
-/

namespace EsalsaMpi

open Wire Queues

/-- The words in front of the payload of a data message. -/
def DataMessage.head (m : DataMessage) : List UInt32 :=
  [UInt32.ofNat m.opcode, m.srcPid, m.dstPid, UInt32.ofNat m.length, UInt32.ofNat m.comm,
    (Int32.ofInt m.source).toUInt32, (Int32.ofInt m.dest).toUInt32, (Int32.ofInt m.tag).toUInt32,
    UInt32.ofNat m.count]

/-- The bytes of a data message in the memory of its sender. -/
def DataMessage.bytes (o : ByteOrder) (m : DataMessage) : Bytes :=
  m.head.flatMap o.store ++ m.payload

/-- The header holds the length, which is an `int`. -/
structure DataMessage.Sendable (m : DataMessage) : Prop where
  length_eq : m.length = dataMessageSize + m.payload.length
  length_lt : m.length < 2 ^ 31

/-- `header.src_pid`. -/
def srcPid (o : ByteOrder) (m : Bytes) : Pid := (o.load m 4).getD 0

/-- `header.dst_pid`. -/
def dstPid (o : ByteOrder) (m : Bytes) : Pid := (o.load m 8).getD 0

theorem srcPid_bytes (o : ByteOrder) (m : DataMessage) : srcPid o (m.bytes o) = m.srcPid := by
  have hload := o.load_flatMap_store m.head m.payload (show 1 < 9 by decide)
  exact congrArg (Option.getD · 0) hload

theorem dstPid_bytes (o : ByteOrder) (m : DataMessage) : dstPid o (m.bytes o) = m.dstPid := by
  have hload := o.load_flatMap_store m.head m.payload (show 2 < 9 by decide)
  exact congrArg (Option.getD · 0) hload

theorem DataMessage.Sendable.length_bytes {m : DataMessage} (h : m.Sendable) (o : ByteOrder) :
    (m.bytes o).length = m.length := by
  rw [h.length_eq, bytes, List.length_append]
  congr 1
  simp [head, dataMessageSize, messageHeaderSize]

/-- A message that is sent has the size that its header tells. -/
theorem DataMessage.Sendable.wellSized {m : DataMessage} (h : m.Sendable) (o : ByteOrder) :
    (LinkKind.data o).WellSized (m.bytes o) := by
  have hsize := h.length_bytes o
  have hload : o.load (m.bytes o) 12 = some (UInt32.ofNat m.length) :=
    o.load_flatMap_store m.head m.payload (show 3 < 9 by decide)
  have hlength := h.length_eq
  have hlt := h.length_lt
  refine ⟨?_, ?_⟩
  · rw [hsize, hlength]
    unfold genericMessageSize dataMessageSize messageHeaderSize
    omega
  · simp only [headerLength, LinkKind.type, LinkKind.writerOrder, hload, Option.getD_some, hsize]
    rw [UInt32.toNat_ofNat']
    omega

/-- What a run is configured with: the clusters, the number of streams of a
gateway connection and the byte order of the machines. -/
structure Setup where
  cfg : Server.Config
  streams : Nat
  streams_pos : 0 < streams
  order : ByteOrder

/-- A gateway connection, as seen from the cluster that sends. -/
structure Connection where
  cluster : Nat
  gateway : Nat
  target : Nat
deriving DecidableEq

/-- A gateway. -/
structure Gateway where
  cluster : Nat
  rank : Nat
deriving DecidableEq

/-- The gateway at the other end of a connection. -/
def Connection.receiver (c : Connection) : Gateway := ⟨c.target, c.gateway⟩

/-- The data messages of a run: those that a process has sent and those of
them that its gateway has not received, the queue and the sockets of every
connection, and for the gateways of a cluster the messages that are read but
not forwarded and those that have been forwarded. -/
structure Network where
  sent : Pid → List Bytes
  mpi : Pid → List Bytes
  outQueue : Connection → List Bytes
  streams : Connection → Nat → Stream
  incoming : Gateway → List Bytes
  handed : Gateway → List Bytes

/-- The rank of the gateway of a process, `my_gateway`. -/
def Setup.gatewayOf (u : Setup) (pid : Pid) : Nat :=
  getProcessRank pid % u.cfg.numberOfGatewaysPerCluster

/-- The connection that the messages of a process to a cluster take. -/
def Setup.route (u : Setup) (pid : Pid) (target : Nat) : Connection :=
  ⟨getClusterRank pid, u.gatewayOf pid, target⟩

namespace Network

variable (u : Setup)

/-- No message has been sent. -/
def start : Network where
  sent := fun _ => []
  mpi := fun _ => []
  outQueue := fun _ => []
  streams := fun _ _ => .start (.data u.order)
  incoming := fun _ => []
  handed := fun _ => []

/-- `do_send`. -/
def send (s : Network) (p : Pid) (m : Bytes) : Network :=
  { s with
    sent := push s.sent p [m]
    mpi := push s.mpi p [m] }

/-- `receive_mpi_data_message` and `enqueue_data_message`, for the message `m` of
the process `p`. -/
def receive (s : Network) (p : Pid) (m : Bytes) : Network :=
  { s with
    mpi := pop s.mpi p
    outQueue := push s.outQueue (u.route p (getClusterRank (dstPid u.order m))) [m] }

/-- A step of the socket `i` of a connection. -/
def socket (s : Network) (c : Connection) (i : Nat) (queue : List Bytes) (stream : Stream)
    (enqueued : Option Bytes) : Network :=
  { s with
    outQueue := Function.update s.outQueue c queue
    streams := Function.update s.streams c (Function.update (s.streams c) i stream)
    incoming := push s.incoming c.receiver enqueued.toList }

/-- `forward_data_messages_to_mpi`, for the message `m`. -/
def forward (s : Network) (gateway : Gateway) (m : Bytes) : Network :=
  { s with
    incoming := pop s.incoming gateway
    handed := push s.handed gateway [m.take (headerLength .data u.order m)] }

/-- A step of a process or of a gateway. -/
inductive Step : Network → Network → Prop where
  | send {s : Network} {p : Pid} {m : DataMessage} (hp : u.cfg.IsApplication p)
      (hq : u.cfg.IsApplication m.dstPid) (hsrc : m.srcPid = p) (hm : m.Sendable) :
      Step s (s.send p (m.bytes u.order))
  | receive {s : Network} {p : Pid} {m : Bytes} {rest : List Bytes} (hmpi : s.mpi p = m :: rest) :
      Step s (s.receive u p m)
  | socket {s : Network} {c : Connection} {i : Nat} {queue : List Bytes} {stream : Stream}
      {enqueued : Option Bytes} (hc : c.cluster ≠ c.target) (hi : i < u.streams)
      (hstep : Stream.Step (.data u.order) (s.outQueue c) (s.streams c i) enqueued queue stream) :
      Step s (s.socket c i queue stream enqueued)
  | forward {s : Network} {gateway : Gateway} {m : Bytes} {rest : List Bytes}
      (hincoming : s.incoming gateway = m :: rest) :
      Step s (s.forward u gateway m)

/-- The states of a run. -/
def Reachable : Network → Prop := Relation.ReflTransGen (Step u) (start u)

/-- The messages from `p` to `q` in a list. -/
def between (p q : Pid) (ms : List Bytes) : List Bytes :=
  ms.filter fun m => srcPid u.order m = p ∧ dstPid u.order m = q

/-- The gateway that hands the messages of `p` to `q`. -/
def lastGateway (p q : Pid) : Gateway := ⟨getClusterRank q, u.gatewayOf p⟩

/-- Nothing from `p` to the cluster of `q` is on its way. -/
structure Drained (s : Network) (p q : Pid) : Prop where
  mpi : s.mpi p = []
  outQueue : s.outQueue (u.route p (getClusterRank q)) = []
  sender : ∀ i < u.streams,
    (s.streams (u.route p (getClusterRank q)) i).sender.outMessage = none
  wire : ∀ i < u.streams, (s.streams (u.route p (getClusterRank q)) i).wire = []
  incoming : s.incoming (lastGateway u p q) = []

/-- The messages from `p` to `q` are handed to `q` in the order in which they
were sent, without gaps, by one gateway, and all of them in the end. -/
structure InOrder (s : Network) (p q : Pid) : Prop where
  prefix_sent : between u p q (s.handed (lastGateway u p q)) <+: between u p q (s.sent p)
  elsewhere : ∀ gateway, gateway ≠ lastGateway u p q → between u p q (s.handed gateway) = []
  complete : s.Drained u p q →
    between u p q (s.handed (lastGateway u p q)) = between u p q (s.sent p)

end Network

/-- Every run hands the messages between processes of different clusters over
in order. -/
def Setup.DeliversInOrder (u : Setup) : Prop :=
  ∀ s, Network.Reachable u s → ∀ p q, getClusterRank p ≠ getClusterRank q → s.InOrder u p q

/-- A step of a socket only moves a message from the queue to the messages
dequeued. -/
theorem Stream.Step.dequeued {k : LinkKind} {queue queue' : List Bytes} {s s' : Stream}
    {enqueued : Option Bytes} (hstep : Stream.Step k queue s enqueued queue' s') :
    s'.dequeued ++ queue' = s.dequeued ++ queue := by
  cases hstep with
  | dequeue => simp
  | write => rfl
  | readBlocked => rfl
  | readAgain => rfl
  | readEnqueued => rfl

theorem Stream.Step.enqueued {k : LinkKind} {queue queue' : List Bytes} {s s' : Stream}
    {enqueued : Option Bytes} (hstep : Stream.Step k queue s enqueued queue' s') :
    s'.enqueued = s.enqueued ++ enqueued.toList := by
  cases hstep with
  | dequeue => simp
  | write => simp
  | readBlocked => simp
  | readAgain => simp
  | readEnqueued => simp

namespace Network

variable {u : Setup} {s s' : Network}

/-- **What holds in a run with one stream.**  Every message keeps to the route
of its sender; in front of a gateway and behind it, the messages stay in
order. -/
structure Inv (u : Setup) (s : Network) : Prop where
  stream : ∀ c, (s.streams c 0).Inv (.data u.order)
  queue : ∀ c, ∀ m ∈ s.outQueue c, (LinkKind.data u.order).WellSized m
  mpi : ∀ p, ∀ m ∈ s.mpi p, (LinkKind.data u.order).WellSized m ∧ srcPid u.order m = p
  routed : ∀ c, ∀ m ∈ (s.streams c 0).dequeued ++ s.outQueue c,
    u.route (srcPid u.order m) (getClusterRank (dstPid u.order m)) = c
  sending : ∀ p target,
    ((s.streams (u.route p target) 0).dequeued ++ s.outQueue (u.route p target)).filter
        (fun m => srcPid u.order m = p) ++
      (s.mpi p).filter (fun m => getClusterRank (dstPid u.order m) = target) =
    (s.sent p).filter fun m => getClusterRank (dstPid u.order m) = target
  receiving : ∀ c : Connection,
    (s.handed c.receiver ++ s.incoming c.receiver).filter
        (fun m => getClusterRank (srcPid u.order m) = c.cluster) =
      (s.streams c 0).enqueued

theorem inv_start (u : Setup) : (start u).Inv u where
  stream := fun _ => Stream.inv_start _
  queue := by simp [start]
  mpi := by simp [start]
  routed := by simp [start, Stream.start]
  sending := by simp [start, Stream.start]
  receiving := by simp [start, Stream.start]

/-- A message that a reader has enqueued was dequeued on the same connection. -/
theorem Inv.routed_enqueued (h : s.Inv u) {c : Connection} {m : Bytes}
    (hm : m ∈ (s.streams c 0).enqueued) :
    u.route (srcPid u.order m) (getClusterRank (dstPid u.order m)) = c := by
  obtain ⟨rest, hrest, _⟩ := (h.stream c).exists_rest
  exact h.routed c m (by rw [hrest]; simp [hm])

theorem Inv.send (h : s.Inv u) {p : Pid} {m : Bytes}
    (hm : (LinkKind.data u.order).WellSized m) (hsrc : srcPid u.order m = p) :
    (s.send p m).Inv u where
  stream := h.stream
  queue := h.queue
  mpi := by
    intro p' m' hm'
    rcases mem_push.mp hm' with hm' | ⟨hp, hm'⟩
    · exact h.mpi p' m' hm'
    · rw [List.mem_singleton.mp hm', hp]
      exact ⟨hm, hsrc⟩
  routed := h.routed
  sending := by
    intro p' target
    have hbefore := h.sending p' target
    simp only [Network.send, push_apply, List.filter_append] at hbefore ⊢
    rw [← hbefore]
    simp only [List.append_assoc]
  receiving := h.receiving

theorem Inv.receive (h : s.Inv u) {p : Pid} {m : Bytes} {rest : List Bytes}
    (hmpi : s.mpi p = m :: rest) : (s.receive u p m).Inv u := by
  obtain ⟨hm, hsrc⟩ := h.mpi p m (by rw [hmpi]; exact List.mem_cons_self)
  refine
    { stream := h.stream
      queue := ?_
      mpi := fun p' m' hm' => h.mpi p' m' (mem_of_mem_pop hm')
      routed := ?_
      sending := ?_
      receiving := h.receiving }
  · intro c m' hm'
    rcases mem_push.mp hm' with hm' | ⟨_, hm'⟩
    · exact h.queue c m' hm'
    · rw [List.mem_singleton.mp hm']
      exact hm
  · intro c m' hm'
    rcases List.mem_append.mp hm' with hm' | hm'
    · exact h.routed c m' (List.mem_append_left _ hm')
    · rcases mem_push.mp hm' with hm' | ⟨hc, hm'⟩
      · exact h.routed c m' (List.mem_append_right _ hm')
      · rw [List.mem_singleton.mp hm', hsrc, hc]
  · intro p' target
    have hbefore := h.sending p' target
    rw [pop_apply hmpi p'] at hbefore
    simp only [Network.receive, push_apply, List.filter_append] at hbefore ⊢
    rw [← hbefore]
    -- the message moves from the front of one list to the end of another
    have hmove : (if u.route p' target =
          u.route p (getClusterRank (dstPid u.order m)) then [m] else []).filter
          (fun m => srcPid u.order m = p') =
        (if p' = p then [m] else []).filter
          fun m => getClusterRank (dstPid u.order m) = target := by
      by_cases hp : p' = p
      · subst hp
        by_cases htarget : getClusterRank (dstPid u.order m) = target
        · simp [htarget, hsrc]
        · have hroute : u.route p' target ≠
              u.route p' (getClusterRank (dstPid u.order m)) := by
            intro heq
            exact htarget (congrArg Connection.target heq).symm
          simp [hroute, htarget]
      · have hne : srcPid u.order m ≠ p' := fun heq => hp (heq.symm.trans hsrc)
        rw [if_neg hp]
        split <;> simp [hne]
    rw [hmove]
    simp only [List.append_assoc]

/-- The frames of a link between gateways. -/
theorem take_headerLength {o : ByteOrder} {m : Bytes} (hm : (LinkKind.data o).framing.IsFrame m) :
    m.take (headerLength .data o m) = m := by
  have hlength : headerLength .data o m = m.length := hm.length_eq
  rw [hlength, List.take_length]

theorem Inv.socket (h : s.Inv u) {c : Connection} {queue : List Bytes} {stream : Stream}
    {enqueued : Option Bytes}
    (hstep : Stream.Step (.data u.order) (s.outQueue c) (s.streams c 0) enqueued queue stream) :
    (s.socket c 0 queue stream enqueued).Inv u := by
  have hinv := (h.stream c).step (h.queue c) hstep
  have hdequeued := hstep.dequeued
  have henqueued := hstep.enqueued
  -- the sockets and the queues of the connections after the step
  have hstreams : ∀ c', (s.socket c 0 queue stream enqueued).streams c' 0 =
      if c' = c then stream else s.streams c' 0 := by
    intro c'
    by_cases hc : c' = c
    · subst hc
      simp [Network.socket]
    · simp [Network.socket, hc]
  have hboth : ∀ c', ((s.socket c 0 queue stream enqueued).streams c' 0).dequeued ++
      (s.socket c 0 queue stream enqueued).outQueue c' =
        (s.streams c' 0).dequeued ++ s.outQueue c' := by
    intro c'
    rw [hstreams c']
    by_cases hc : c' = c
    · subst hc
      rw [if_pos rfl]
      simpa [Network.socket] using hdequeued
    · rw [if_neg hc]
      simp [Network.socket, hc]
  refine
    { stream := ?_
      queue := ?_
      mpi := h.mpi
      routed := ?_
      sending := ?_
      receiving := ?_ }
  · intro c'
    rw [hstreams c']
    split
    · exact hinv
    · exact h.stream c'
  · intro c' m hm
    by_cases hc : c' = c
    · subst hc
      simp only [Network.socket, Function.update_self] at hm
      exact h.queue c' m (hstep.queue m hm)
    · simp only [Network.socket, Function.update_of_ne hc] at hm
      exact h.queue c' m hm
  · intro c' m hm
    rw [hboth c'] at hm
    exact h.routed c' m hm
  · intro p target
    rw [hboth]
    exact h.sending p target
  · intro c'
    have hbefore := h.receiving c'
    have hsource : ∀ m ∈ enqueued.toList, getClusterRank (srcPid u.order m) = c.cluster := by
      intro m hm
      obtain ⟨rest, hrest, _⟩ := hinv.exists_rest
      have hm' : m ∈ stream.dequeued ++ queue := by
        rw [hrest, henqueued]
        simp [hm]
      rw [hdequeued] at hm'
      exact congrArg Connection.cluster (h.routed c m hm')
    rw [hstreams c']
    simp only [Network.socket, push_apply, ← List.append_assoc, List.filter_append] at hbefore ⊢
    rw [hbefore]
    by_cases hc : c' = c
    · subst hc
      rw [if_pos rfl, if_pos rfl, henqueued,
        List.filter_eq_self.mpr fun m hm => decide_eq_true (hsource m hm)]
    · rw [if_neg hc]
      have hnone : (if c'.receiver = c.receiver then enqueued.toList else []).filter
          (fun m => getClusterRank (srcPid u.order m) = c'.cluster) = [] := by
        split
        · rename_i hreceiver
          apply List.filter_eq_nil_iff.mpr
          intro m hm
          rw [decide_eq_true_eq, hsource m hm]
          intro hcluster
          apply hc
          obtain ⟨a, g, b⟩ := c
          obtain ⟨a', g', b'⟩ := c'
          simp only [Connection.receiver, Gateway.mk.injEq] at hreceiver
          simp only at hcluster
          rw [hcluster, hreceiver.1, hreceiver.2]
        · exact List.filter_nil
      rw [hnone, List.append_nil]

/-- What waits at a gateway has been read as a whole. -/
theorem Inv.isFrame_incoming (h : s.Inv u) {gateway : Gateway} {m : Bytes}
    (hm : m ∈ s.incoming gateway) : (LinkKind.data u.order).framing.IsFrame m := by
  have hreceiving := h.receiving ⟨getClusterRank (srcPid u.order m), gateway.rank,
    gateway.cluster⟩
  apply (h.stream ⟨getClusterRank (srcPid u.order m), gateway.rank, gateway.cluster⟩).enqueued
  rw [← hreceiving]
  exact List.mem_filter.mpr ⟨List.mem_append_right _ hm, decide_eq_true rfl⟩

theorem Inv.forward (h : s.Inv u) {gateway : Gateway} {m : Bytes} {rest : List Bytes}
    (hincoming : s.incoming gateway = m :: rest) : (s.forward u gateway m).Inv u := by
  have hmem : m ∈ s.incoming gateway := by
    rw [hincoming]
    exact List.mem_cons_self
  have hframe := h.isFrame_incoming hmem
  refine { h with receiving := ?_ }
  intro c
  have hbefore := h.receiving c
  rw [pop_apply hincoming c.receiver] at hbefore
  simp only [Network.forward, push_apply, List.filter_append, take_headerLength hframe]
    at hbefore ⊢
  rw [← hbefore]
  simp only [List.append_assoc]

/-- With one stream, every step keeps the invariant. -/
theorem Inv.step (hstreams : u.streams = 1) (h : s.Inv u) (hstep : Step u s s') : s'.Inv u := by
  cases hstep with
  | send _ _ hsrc hm =>
      exact h.send (hm.wellSized u.order) ((srcPid_bytes _ _).trans hsrc)
  | receive hmpi => exact h.receive hmpi
  | @socket _ i _ _ _ _ hi hstep =>
      have hzero : i = 0 := by omega
      subst hzero
      exact h.socket hstep
  | forward hincoming => exact h.forward hincoming

theorem inv_of_reachable (hstreams : u.streams = 1) (h : Reachable u s) : s.Inv u := by
  induction h with
  | refl => exact inv_start u
  | tail _ hstep ih => exact ih.step hstreams hstep

/-- Dropping other messages. -/
theorem between_filter {p q : Pid} {f : Bytes → Bool} (ms : List Bytes)
    (hf : ∀ m, srcPid u.order m = p → dstPid u.order m = q → f m = true) :
    between u p q (ms.filter f) = between u p q ms := by
  rw [between, between, List.filter_filter]
  apply List.filter_congr
  intro m _
  by_cases h : srcPid u.order m = p ∧ dstPid u.order m = q
  · simp [h, hf m h.1 h.2]
  · simp [h]

theorem between_append (p q : Pid) (ms ms' : List Bytes) :
    between u p q (ms ++ ms') = between u p q ms ++ between u p q ms' := List.filter_append _ _

theorem isPrefix_between (p q : Pid) {ms ms' : List Bytes} (h : ms <+: ms') :
    between u p q ms <+: between u p q ms' := h.filter _

/-- The messages in front of the connection that they take. -/
theorem Inv.between_sent (h : s.Inv u) (p q : Pid) :
    between u p q (s.streams (u.route p (getClusterRank q)) 0).dequeued ++
        between u p q (s.outQueue (u.route p (getClusterRank q))) ++ between u p q (s.mpi p) =
      between u p q (s.sent p) := by
  have hsending := congrArg (between u p q) (h.sending p (getClusterRank q))
  rw [between_append, between_filter _ fun m hsrc _ => decide_eq_true hsrc,
    between_filter _ fun m _ hdst => decide_eq_true (congrArg getClusterRank hdst),
    between_filter _ fun m _ hdst => decide_eq_true (congrArg getClusterRank hdst),
    between_append] at hsending
  exact hsending

/-- The messages behind the connection that they take. -/
theorem Inv.between_handed (h : s.Inv u) (p q : Pid) :
    between u p q (s.handed (lastGateway u p q)) ++
        between u p q (s.incoming (lastGateway u p q)) =
      between u p q (s.streams (u.route p (getClusterRank q)) 0).enqueued := by
  have hreceiving := congrArg (between u p q) (h.receiving (u.route p (getClusterRank q)))
  have hall : ∀ m, srcPid u.order m = p → dstPid u.order m = q →
      decide (getClusterRank (srcPid u.order m) =
        (u.route p (getClusterRank q)).cluster) = true :=
    fun m hsrc _ => decide_eq_true (congrArg getClusterRank hsrc)
  rw [between_filter _ hall, between_append] at hreceiving
  exact hreceiving

/-- A gateway hands no messages over that do not belong to it. -/
theorem Inv.between_elsewhere (h : s.Inv u) {p q : Pid} {gateway : Gateway}
    (hne : gateway ≠ lastGateway u p q) : between u p q (s.handed gateway) = [] := by
  apply List.filter_eq_nil_iff.mpr
  intro m hm hboth
  obtain ⟨hsrc, hdst⟩ := of_decide_eq_true hboth
  have hmem : m ∈ (s.streams ⟨getClusterRank p, gateway.rank, gateway.cluster⟩ 0).enqueued := by
    rw [← h.receiving]
    exact List.mem_filter.mpr ⟨List.mem_append_left _ hm,
      decide_eq_true (congrArg getClusterRank hsrc)⟩
  have hroute := h.routed_enqueued hmem
  rw [hsrc, hdst, Setup.route, Connection.mk.injEq] at hroute
  obtain ⟨_, hrank, hcluster⟩ := hroute
  obtain ⟨cluster, rank⟩ := gateway
  simp only at hrank hcluster
  exact hne (by rw [lastGateway, ← hrank, ← hcluster])

/-- One stream keeps the order. -/
theorem Inv.inOrder (hstreams : u.streams = 1) (h : s.Inv u) (p q : Pid) : s.InOrder u p q where
  prefix_sent := by
    have hstream := isPrefix_between (u := u) p q
      (h.stream (u.route p (getClusterRank q))).isPrefix_enqueued
    have hhanded : between u p q (s.handed (lastGateway u p q)) <+:
        between u p q (s.streams (u.route p (getClusterRank q)) 0).enqueued :=
      ⟨_, h.between_handed p q⟩
    have hsent : between u p q (s.streams (u.route p (getClusterRank q)) 0).dequeued <+:
        between u p q (s.sent p) := by
      rw [← h.between_sent p q, List.append_assoc]
      exact List.prefix_append _ _
    exact (hhanded.trans hstream).trans hsent
  elsewhere := fun _ hne => h.between_elsewhere hne
  complete := by
    intro hdrained
    have hhanded := h.between_handed p q
    have hsent := h.between_sent p q
    have hzero : 0 < u.streams := by omega
    rw [(h.stream _).enqueued_eq (hdrained.sender 0 hzero) (hdrained.wire 0 hzero)] at hhanded
    rw [hdrained.mpi, hdrained.outQueue] at hsent
    rw [hdrained.incoming] at hhanded
    simp only [between, List.filter_nil, List.append_nil] at hhanded hsent ⊢
    rw [hhanded, hsent]

@[simp] theorem streams_socket (s : Network) (c : Connection) (i : Nat) (queue : List Bytes)
    (stream : Stream) (enqueued : Option Bytes) (j : Nat) :
    (s.socket c i queue stream enqueued).streams c j =
      if j = i then stream else s.streams c j := by
  by_cases hj : j = i
  · subst hj
    simp [socket]
  · simp [socket, hj]

@[simp] theorem outQueue_socket (s : Network) (c : Connection) (i : Nat) (queue : List Bytes)
    (stream : Stream) (enqueued : Option Bytes) :
    (s.socket c i queue stream enqueued).outQueue c = queue :=
  Function.update_self _ _ _

/-- A step of a socket whose queue and stream are known. -/
theorem Reachable.socket (h : Reachable u s) {c : Connection} {i : Nat}
    {queue queue' : List Bytes} {stream stream' : Stream} {enqueued : Option Bytes}
    (hc : c.cluster ≠ c.target) (hi : i < u.streams) (hqueue : s.outQueue c = queue) (hstream : s.streams c i = stream)
    (hstep : Stream.Step (.data u.order) queue stream enqueued queue' stream') :
    Reachable u (s.socket c i queue' stream' enqueued) := by
  subst hqueue
  subst hstream
  exact Relation.ReflTransGen.tail h (.socket hc hi hstep)

/-- A free socket passes the next message of the queue of its connection. -/
theorem Reachable.pass (h : Reachable u s) {c : Connection} {i : Nat} {m : Bytes}
    {rest : List Bytes} (hc : c.cluster ≠ c.target) (hi : i < u.streams)
    (hqueue : s.outQueue c = m :: rest)
    (hstream : s.streams c i = .start (.data u.order))
    (hm : (LinkKind.data u.order).WellSized m) (hlong : genericMessageSize < m.length) :
    ∃ s', Reachable u s' ∧ s'.sent = s.sent ∧ s'.handed = s.handed ∧
      s'.incoming = push s.incoming c.receiver [m] := by
  obtain ⟨s₁, s₂, s₃, s₄, h₁, h₂, h₃, h₄⟩ := Stream.exists_pass hm hlong rest
  have hr₁ := h.socket hc hi hqueue hstream h₁
  have hr₂ := hr₁.socket hc hi (outQueue_socket ..) (by simp) h₂
  have hr₃ := hr₂.socket hc hi (outQueue_socket ..) (by simp) h₃
  have hr₄ := hr₃.socket hc hi (outQueue_socket ..) (by simp) h₄
  refine ⟨_, hr₄, rfl, rfl, ?_⟩
  funext gateway
  simp [Network.socket, push_apply]

/-- The first process of a cluster is an application process. -/
theorem isApplication_setPid (cfg : Server.Config) {cluster : Nat} (h : cluster ≤ 1) :
    cfg.IsApplication (setPid cluster 0) := by
  have hlt : cluster < cfg.applicationSizes.length := by
    have := cfg.one_lt_clusters
    omega
  have hpos := cfg.size_pos _ (List.getElem_mem hlt)
  have hcluster : getClusterRank (setPid cluster 0) = cluster :=
    getClusterRank_setPid (by unfold maxClusters; omega) (by decide)
  refine ⟨cfg.applicationSizes[cluster], ?_, ?_⟩
  · rw [hcluster]
    exact List.getElem?_eq_getElem hlt
  · rw [getProcessRank_setPid (by unfold maxClusters; omega) (by decide)]
    exact hpos

/-- A message with one element from the first process of cluster 0 to the first
process of cluster 1, in the world. -/
def oneElement (u : Setup) (x : UInt8) : DataMessage :=
  createDataMessage (setPid 0 0) opcodeData (setPid 1 0) 0 0 (u.cfg.applicationSizes.headD 0) 0 1
    [x]

theorem sendable_oneElement (u : Setup) (x : UInt8) : (oneElement u x).Sendable :=
  ⟨rfl, show 37 < 2 ^ 31 by decide⟩

theorem oneElement_inj {u : Setup} {x y : UInt8}
    (h : (oneElement u x).bytes u.order = (oneElement u y).bytes u.order) : x = y := by
  have hhead : (oneElement u x).head = (oneElement u y).head := rfl
  rw [DataMessage.bytes, DataMessage.bytes, hhead] at h
  have hpayload : [x] = [y] := List.append_cancel_left h
  exact List.singleton_inj.mp hpayload

/-- **Overtaking.**  With two streams, the second of two messages can be handed
over before the first. -/
theorem exists_overtaken (u : Setup) (hstreams : 2 ≤ u.streams) :
    ∃ s, Reachable u s ∧
      s.sent (setPid 0 0) = [(oneElement u 1).bytes u.order, (oneElement u 2).bytes u.order] ∧
      s.handed (lastGateway u (setPid 0 0) (setPid 1 0)) = [(oneElement u 2).bytes u.order] := by
  have hsized := fun x => (sendable_oneElement u x).wellSized u.order
  have hframe := fun x => take_headerLength (hsized x).isFrame
  have hlong : ∀ x, genericMessageSize < ((oneElement u x).bytes u.order).length := by
    intro x
    simp [oneElement, createDataMessage, DataMessage.bytes, DataMessage.head, genericMessageSize]
  have hremote : (u.route (setPid 0 0) 1).cluster ≠ (u.route (setPid 0 0) 1).target :=
    show getClusterRank (setPid 0 0) ≠ 1 by decide
  have htarget : ∀ x, u.route (setPid 0 0)
      (getClusterRank (dstPid u.order ((oneElement u x).bytes u.order))) =
        u.route (setPid 0 0) 1 := by
    intro x
    rw [dstPid_bytes]
    exact congrArg (u.route _) (show getClusterRank (setPid 1 0) = 1 by decide)
  have hsend : ∀ {s}, Reachable u s → ∀ x,
      Reachable u (s.send (setPid 0 0) ((oneElement u x).bytes u.order)) := by
    intro s h x
    exact Relation.ReflTransGen.tail h (.send (isApplication_setPid u.cfg (by decide))
      (isApplication_setPid u.cfg (Nat.le_refl 1)) rfl (sendable_oneElement u x))
  have hreceive : ∀ {s}, Reachable u s → ∀ x rest,
      s.mpi (setPid 0 0) = (oneElement u x).bytes u.order :: rest →
      Reachable u (s.receive u (setPid 0 0) ((oneElement u x).bytes u.order)) :=
    fun h _ _ hmpi => Relation.ReflTransGen.tail h (.receive hmpi)
  -- the process sends both messages and its gateway receives them
  have hsent := hsend (hsend (Relation.ReflTransGen.refl : Reachable u (start u)) 1) 2
  have hqueued := hreceive (hreceive hsent 1 [(oneElement u 2).bytes u.order]
    (by simp [Network.send, start])) 2 [] (by simp [Network.receive, Network.send, start, pop])
  have hqueue : (((((start u).send (setPid 0 0) ((oneElement u 1).bytes u.order)).send
      (setPid 0 0) ((oneElement u 2).bytes u.order)).receive u (setPid 0 0)
        ((oneElement u 1).bytes u.order)).receive u (setPid 0 0)
          ((oneElement u 2).bytes u.order)).outQueue (u.route (setPid 0 0) 1) =
      [(oneElement u 1).bytes u.order, (oneElement u 2).bytes u.order] := by
    simp [Network.receive, Network.send, start, htarget]
  -- one socket dequeues the first message, the other one passes the second
  obtain ⟨stream, _, _, _, hdequeue, _⟩ := Stream.exists_pass (hsized 1) (hlong 1)
    [(oneElement u 2).bytes u.order]
  have hbusy := hqueued.socket (i := 0) hremote (by omega) hqueue rfl hdequeue
  obtain ⟨s, hpassed, hsent', hhanded, hincoming⟩ := hbusy.pass (i := 1) hremote (by omega)
    (outQueue_socket ..) (by simp [Network.receive, Network.send, start]) (hsized 2) (hlong 2)
  have hgateway : s.incoming (lastGateway u (setPid 0 0) (setPid 1 0)) =
      [(oneElement u 2).bytes u.order] := by
    rw [hincoming]
    have hreceiver : (u.route (setPid 0 0) 1).receiver =
        lastGateway u (setPid 0 0) (setPid 1 0) := by
      rw [lastGateway, show getClusterRank (setPid 1 0) = 1 by decide]
      rfl
    rw [hreceiver]
    simp [Network.socket, Network.receive, Network.send, start, push_apply]
  refine ⟨_, Relation.ReflTransGen.tail hpassed (.forward hgateway), ?_, ?_⟩
  · show s.sent _ = _
    rw [hsent']
    simp [Network.socket, Network.receive, Network.send, start]
  · simp only [Network.forward, push_self, hhanded, hframe]
    simp [Network.socket, Network.receive, Network.send, start]

end Network

/-- With several streams the order is not kept in every run. -/
theorem Setup.not_deliversInOrder {u : Setup} (hstreams : 2 ≤ u.streams) :
    ¬ u.DeliversInOrder := by
  intro h
  obtain ⟨s, hreachable, hsent, hhanded⟩ := Network.exists_overtaken u hstreams
  have hprefix := (h s hreachable (setPid 0 0) (setPid 1 0) (by decide)).prefix_sent
  have hboth : ∀ x, srcPid u.order ((Network.oneElement u x).bytes u.order) = setPid 0 0 ∧
      dstPid u.order ((Network.oneElement u x).bytes u.order) = setPid 1 0 := fun x =>
    ⟨srcPid_bytes _ _, dstPid_bytes _ _⟩
  rw [hsent, hhanded] at hprefix
  simp only [Network.between, List.filter_cons, hboth, and_self, decide_true, if_true,
    List.filter_nil, List.cons_prefix_cons] at hprefix
  exact absurd (Network.oneElement_inj hprefix.1) (by decide)

/-- **The order of the messages between two processes** is kept in every run
exactly when a gateway connection has one stream. -/
theorem Setup.deliversInOrder_iff (u : Setup) : u.DeliversInOrder ↔ u.streams = 1 := by
  constructor
  · intro h
    by_contra hne
    have hpos := u.streams_pos
    exact not_deliversInOrder (by omega) h
  · intro hone s h p q _
    exact (Network.inv_of_reachable hone h).inOrder hone p q

/-- Two clusters with two streams between their gateways. -/
def Setup.twoStreams : Setup := ⟨.pair, 2, Nat.zero_lt_two, .little⟩

/-- Between them, the second of two messages overtakes the first one. -/
theorem not_deliversInOrder_twoStreams : ¬ ∀ u : Setup, u.DeliversInOrder :=
  fun h => Setup.not_deliversInOrder (Nat.le_refl 2) (h .twoStreams)

end EsalsaMpi
