import EsalsaMpi.Gateway.Conservation
import EsalsaMpi.Gateway.MainLoop.Steps
import EsalsaMpi.Library.Endings
import EsalsaMpi.Library.Shares
import Mathlib.Algebra.Order.BigOperators.Group.Finset
import Mathlib.Data.Set.Finite.Basic

/-!
# What has been sent arrives

A gateway takes data messages out of MPI only while it holds less than `MAX_PENDING_DATA_MSG`
of them and less than `MAX_PENDING_DATA_SIZE` bytes.  If all messages that have been sent go to
other clusters, that does not block the network: from whatever state a run has got to, if no more
messages are sent, the gateways come to their end after a bounded number of steps, in whatever order
they take them, however the operating system splits the reads and writes and whatever the number of
streams; and then every message has been handed over.  A message for the cluster that it comes from
is never handed over, and counts as pending for ever (`Setup.drains`).

A message has a share for each step that is left on its way, and on a socket so has each of its
bytes.
-/

namespace EsalsaMpi

open Queues Endings Shares

namespace Network

/-- The data messages that a gateway has taken out of MPI and not written yet. -/
def pending (u : Setup) (s : Network) (gateway : Gateway) : List Bytes :=
  (List.range u.cfg.numberOfClusters).flatMap fun target =>
    s.outQueue ⟨gateway.cluster, gateway.rank, target⟩ ++
      (List.range u.streams).flatMap fun i =>
        (s.streams ⟨gateway.cluster, gateway.rank, target⟩ i).sender.outMessage.toList

/-- `receive_mpi_data_message` is called only while there is buffer space. -/
def HasRoom (u : Setup) (s : Network) (gateway : Gateway) : Prop :=
  (s.pending u gateway).length < MainLoop.maxPendingDataMsg.toNat ∧
    ((s.pending u gateway).map List.length).sum < MainLoop.maxPendingDataSize.toNat

/-- What the gateways do: the steps of the network other than `send`, as far as a message or a
byte moves.  A socket that would block does not count. -/
inductive Moves (u : Setup) : Network → Network → Prop where
  | receive {s : Network} {p : Pid} {m : Bytes} {rest : List Bytes} (hmpi : s.mpi p = m :: rest)
      (hroom : s.HasRoom u ⟨getClusterRank p, u.gatewayOf p⟩) :
      Moves u s (s.receive u p m)
  | socket {s : Network} {c : Connection} {i : Nat} {queue : List Bytes} {stream : Stream}
      {enqueued : Option Bytes} (hc : c.cluster ≠ c.target) (hi : i < u.streams)
      (hstep : Stream.Step (.data u.order) (s.outQueue c) (s.streams c i) enqueued queue stream)
      (hmoved : stream.dequeued ≠ (s.streams c i).dequeued ∨
        stream.wire ≠ (s.streams c i).wire) :
      Moves u s (s.socket c i queue stream enqueued)
  | forward {s : Network} {gateway : Gateway} {m : Bytes} {rest : List Bytes}
      (hincoming : s.incoming gateway = m :: rest) :
      Moves u s (s.forward u gateway m)

/-- Every message that has been sent has been handed over. -/
def AllHanded (u : Setup) (s : Network) : Prop :=
  ∀ p q, (between u p q (s.handed (lastGateway u p q))).Perm (between u p q (s.sent p))

end Network

/-- The messages that have been sent go to other clusters. -/
def Network.SentAbroad (u : Setup) (s : Network) : Prop :=
  ∀ p, ∀ m ∈ s.sent p, getClusterRank (dstPid u.order m) ≠ getClusterRank p

/-- What has been sent in a run, the gateways hand over, and they come to their end, just if it goes
to other clusters. -/
def Setup.Drains (u : Setup) : Prop :=
  ∀ s, Network.Reachable u s →
    (EndsIn (Network.Moves u) (fun t => t.sent = s.sent ∧ t.AllHanded u) s ↔ s.SentAbroad u)

/-! ## The shares of a socket -/

variable {k : LinkKind} {queue queue' : List Bytes} {s s' : Stream} {enqueued : Option Bytes}

/-- The steps left for what is in a queue: its bytes are written and read, and the message is
dequeued and forwarded. -/
def queueShare (ms : List Bytes) : Nat := (ms.map fun m => 3 * m.length + 2).sum

@[simp] theorem queueShare_append (ms ms' : List Bytes) :
    queueShare (ms ++ ms') = queueShare ms + queueShare ms' := by
  simp [queueShare]

/-- The steps left for what is on a socket. -/
def Stream.share (s : Stream) : Nat := 3 * s.sender.pending.length + 2 * s.wire.length

/-- What the reader enqueues has yet to be forwarded. -/
def enqueuedShare (enqueued : Option Bytes) : Nat := enqueued.toList.length

theorem SocketInfo.toWrite_eq_pending {info : SocketInfo} {m : Bytes}
    (hm : info.outMessage = some m) (hcount : info.outcount = m.length) :
    info.toWrite = info.pending := by
  rw [toWrite, pending, hm, hcount, Option.getD_some, List.take_length]

/-- What is written is no longer pending. -/
theorem SocketInfo.pending_afterWrite {info : SocketInfo} {m : Bytes} (tmp : Nat)
    (hm : info.outMessage = some m) (hcount : info.outcount = m.length) :
    (info.afterWrite tmp).pending = info.pending.drop tmp := by
  have hpending : info.pending = m.drop info.outpos := by rw [pending, hm, Option.getD_some]
  rw [hpending, List.drop_drop]
  unfold afterWrite
  split
  · simp [pending, hm]
  · have hle : m.length ≤ info.outpos + tmp := by omega
    simp [pending, List.drop_eq_nil_of_le hle]

/-- **A socket on which something moves** has less to do afterwards. -/
theorem Stream.Step.share_lt (h : s.Inv k) (hstep : Stream.Step k queue s enqueued queue' s')
    (hmoved : s'.dequeued ≠ s.dequeued ∨ s'.wire ≠ s.wire) :
    s'.share + queueShare queue' + enqueuedShare enqueued < s.share + queueShare queue := by
  cases hstep with
  | @dequeue _ m rest sender hidle hprepare =>
      simp only [SocketInfo.prepareMessage, hidle, Option.some.injEq, Prod.mk.injEq, and_true]
        at hprepare
      subst hprepare
      have hpending : s.sender.pending = [] := by
        rw [SocketInfo.pending, hidle]
        exact List.drop_nil
      simp only [Stream.share, SocketInfo.pending, Option.getD_some, List.drop_zero, queueShare,
        List.map_cons, List.sum_cons, enqueuedShare, Option.toList_none, List.length_nil] at *
      omega
  | write tmp hbusy htmp =>
      obtain ⟨m, hm⟩ := Option.ne_none_iff_exists'.mp hbusy
      have hcount := (h.sender m hm).1
      have htoWrite := SocketInfo.toWrite_eq_pending hm hcount
      have hpos : 0 < tmp := by
        rcases Nat.eq_zero_or_pos tmp with hzero | hpos
        · subst hzero
          simp at hmoved
        · exact hpos
      rw [htoWrite] at htmp
      simp only [Stream.share, SocketInfo.pending_afterWrite tmp hm hcount, htoWrite,
        List.length_append, List.length_take, List.length_drop, enqueuedShare,
        Option.toList_none, List.length_nil]
      omega
  | readBlocked => simp at hmoved
  | @readAgain _ _ chunk wire info hreturns hread =>
      have hpos := List.length_pos_iff.mpr hreturns.chunk_ne
      simp only [Stream.share, hreturns.wire, List.length_append, enqueuedShare,
        Option.toList_none, List.length_nil]
      omega
  | readEnqueued hreturns hread =>
      have hpos := List.length_pos_iff.mpr hreturns.chunk_ne
      simp only [Stream.share, hreturns.wire, List.length_append, enqueuedShare,
        Option.toList_some, List.length_singleton]
      omega

/-- Where something is to be written or read, the writer has dequeued a message. -/
theorem Stream.Inv.exists_dequeued (h : s.Inv k) (hshare : 0 < s.share) :
    ∃ m, m ∈ s.dequeued := by
  have hlength := congrArg List.length h.stream
  have hne : s.dequeued ≠ [] := by
    intro hnil
    rw [hnil] at hlength
    simp only [List.length_append, List.flatten_nil, List.length_nil, share] at hlength hshare
    omega
  exact List.exists_mem_of_ne_nil _ hne

/-- **A socket on which something is left to do can do it.** -/
theorem Stream.Inv.exists_move (h : s.Inv k) (hleft : 0 < s.share + queueShare queue) :
    ∃ enqueued queue' s', Stream.Step k queue s enqueued queue' s' ∧
      (s'.dequeued ≠ s.dequeued ∨ s'.wire ≠ s.wire) := by
  cases hmessage : s.sender.outMessage with
  | some m =>
      -- the rest of the message is written
      obtain ⟨hcount, hpos⟩ := h.sender m hmessage
      have htoWrite := SocketInfo.toWrite_eq_pending hmessage hcount
      have hpending : 0 < s.sender.toWrite.length := by
        rw [htoWrite, SocketInfo.pending, hmessage, Option.getD_some, List.length_drop]
        omega
      have hbusy : s.sender.outMessage ≠ none := by
        rw [hmessage]
        exact Option.some_ne_none m
      refine ⟨none, queue, _, .write s.sender.toWrite.length hbusy (Nat.le_refl _),
        Or.inr fun hsame => ?_⟩
      have hlength := congrArg List.length hsame
      simp only [List.take_length, List.length_append] at hlength
      omega
  | none =>
      cases queue with
      | cons m rest =>
          obtain ⟨sender, hprepare⟩ : ∃ sender,
              s.sender.prepareMessage k.writerOrder (m :: rest) = some (sender, rest) := by
            rw [SocketInfo.prepareMessage, hmessage]
            exact ⟨_, rfl⟩
          refine ⟨none, rest, _, .dequeue hmessage hprepare, Or.inl fun hsame => ?_⟩
          have hlength := congrArg List.length hsame
          simp at hlength
      | nil =>
          -- a byte is read
          have hpending : s.sender.pending = [] := by
            rw [SocketInfo.pending, hmessage]
            exact List.drop_nil
          obtain ⟨b, wire, hwire⟩ : ∃ b wire, s.wire = b :: wire := by
            refine List.exists_cons_of_ne_nil fun hnil => ?_
            rw [share, hpending, hnil] at hleft
            exact absurd hleft (by decide)
          have hreturns : s.Returns [b] wire := by
            refine ⟨hwire, List.cons_ne_nil _ _, ?_⟩
            rw [s.receiver.exists_inMessage_startRead, Option.getD_some]
            exact h.incomplete_startRead.1
          have hmoved : wire ≠ s.wire := by
            rw [hwire]
            exact fun hsame => List.cons_ne_self _ _ hsame.symm
          rcases h.afterRead hreturns with ⟨_, hread, _⟩ | ⟨_, hread, _⟩
          · exact ⟨none, [], _, .readAgain hreturns hread, Or.inr hmoved⟩
          · exact ⟨some _, [], _, .readEnqueued hreturns hread, Or.inr hmoved⟩

/-! ## The shares of the network -/

namespace Network

variable {u : Setup} {s s' : Network} {c : Connection} {gateway : Gateway} {p : Pid}

/-- The steps left for the messages that a process has sent. -/
def mpiShare (ms : List Bytes) : Nat := (ms.map fun m => 3 * m.length + 3).sum

/-- The steps left on a connection. -/
def connectionShare (u : Setup) (s : Network) (c : Connection) : Nat :=
  queueShare (s.outQueue c) + ∑ i ∈ Finset.range u.streams, (s.streams c i).share

/-- The connections on the routes of messages. -/
noncomputable def routes (u : Setup) : Finset Connection :=
  (pids ×ˢ pids).image fun ends => u.route ends.1 (getClusterRank ends.2)

/-- **The steps left** in the network. -/
noncomputable def stepsLeft (u : Setup) (s : Network) : Nat :=
  ∑ p ∈ pids, mpiShare (s.mpi p) + ∑ c ∈ routes u, s.connectionShare u c +
    ∑ gateway ∈ (routes u).image Connection.receiver, (s.incoming gateway).length

theorem route_mem_routes (p q : Pid) : u.route p (getClusterRank q) ∈ routes u :=
  Finset.mem_image.mpr ⟨(p, q), Finset.mem_product.mpr ⟨mem_pids p, mem_pids q⟩, rfl⟩

/-- A connection on which something is left is on a route. -/
theorem Account.mem_routes (h : s.Account u) {m : Bytes}
    (hm : m ∈ s.onSockets u Stream.dequeued c ++ s.outQueue c) : c ∈ routes u := by
  rw [← h.routed c m hm]
  exact route_mem_routes _ _

/-- A gateway at which something waits is at the end of a route. -/
theorem Account.exists_route (h : s.Account u) {m : Bytes} (hm : m ∈ s.incoming gateway) :
    gateway ∈ (routes u).image Connection.receiver := by
  have hreceiving := h.receiving ⟨getClusterRank (srcPid u.order m), gateway.rank,
    gateway.cluster⟩
  have hmem := hreceiving.mem_iff.mp (List.mem_filter.mpr
    ⟨List.mem_append_right _ hm, decide_eq_true rfl⟩)
  obtain ⟨i, hi, hmem⟩ := List.mem_flatMap.mp hmem
  have hi' := List.mem_range.mp hi
  have hdequeued := mem_onSockets hi' ((h.stream _ i hi').isPrefix_enqueued.mem hmem)
  exact Finset.mem_image.mpr
    ⟨_, h.mem_routes (List.mem_append_left _ hdequeued), rfl⟩

theorem stepsLeft_receive {m : Bytes} {rest : List Bytes} (hmpi : s.mpi p = m :: rest) :
    (s.receive u p m).stepsLeft u < s.stepsLeft u := by
  have hprocess := sum_add_eq (f := fun j => mpiShare (s.mpi j))
    (g := fun j => mpiShare (pop s.mpi p j)) (mem_pids p) fun j hj => by
      rw [pop, Function.update_of_ne hj]
  have hconnection := sum_add_eq (f := fun c => s.connectionShare u c)
    (g := fun c => (s.receive u p m).connectionShare u c)
    (route_mem_routes (u := u) p (dstPid u.order m)) fun j hj => by
      simp only [connectionShare, receive, push_apply, hj, if_false, List.append_nil]
  simp only [connectionShare, receive, push_self, queueShare_append, pop,
    Function.update_self, hmpi, List.tail_cons] at hprocess hconnection
  simp only [stepsLeft, connectionShare, receive, pop, hmpi, List.tail_cons]
  simp only [mpiShare, queueShare, List.map_cons, List.map_nil, List.sum_cons, List.sum_nil]
    at hprocess hconnection ⊢
  omega

/-- A connection with a socket that has something to do is on a route. -/
theorem Account.mem_routes_of_share (h : s.Account u) {i : Nat} (hi : i < u.streams)
    (hleft : 0 < (s.streams c i).share + queueShare (s.outQueue c)) : c ∈ routes u := by
  rcases Nat.eq_zero_or_pos (s.streams c i).share with hzero | hshare
  · cases hqueue : s.outQueue c with
    | nil =>
        rw [hzero, hqueue] at hleft
        exact absurd hleft (Nat.lt_irrefl 0)
    | cons m rest =>
        refine h.mem_routes (m := m) (List.mem_append_right _ ?_)
        rw [hqueue]
        exact List.mem_cons_self
  · obtain ⟨m, hm⟩ := (h.stream c i hi).exists_dequeued hshare
    exact h.mem_routes (List.mem_append_left _ (mem_onSockets hi hm))

theorem stepsLeft_socket (h : s.Account u) {i : Nat} {queue : List Bytes} {stream : Stream}
    {enqueued : Option Bytes} (hi : i < u.streams)
    (hstep : Stream.Step (.data u.order) (s.outQueue c) (s.streams c i) enqueued queue stream)
    (hmoved : stream.dequeued ≠ (s.streams c i).dequeued ∨ stream.wire ≠ (s.streams c i).wire) :
    (s.socket c i queue stream enqueued).stepsLeft u < s.stepsLeft u := by
  have hless := hstep.share_lt (h.stream c i hi) hmoved
  have hc : c ∈ routes u := h.mem_routes_of_share hi (Nat.zero_lt_of_lt hless)
  have hsockets := sum_add_eq (f := fun j => (s.streams c j).share)
    (g := fun j => ((s.socket c i queue stream enqueued).streams c j).share)
    (Finset.mem_range.mpr hi) fun j hj => by
      rw [streams_socket_apply, if_neg fun heq => hj heq.2]
  have hconnection := sum_add_eq (f := fun c' => s.connectionShare u c')
    (g := fun c' => (s.socket c i queue stream enqueued).connectionShare u c') hc
    fun c' hne => by
      simp only [connectionShare, streams_socket_apply, hne, false_and, if_false]
      simp only [socket, Function.update_of_ne hne]
  have hincoming := sum_add_eq (f := fun gateway => (s.incoming gateway).length)
    (g := fun gateway => ((s.socket c i queue stream enqueued).incoming gateway).length)
    (Finset.mem_image_of_mem Connection.receiver hc) fun gateway hne => by
      simp only [socket, push_apply, hne, if_false, List.append_nil]
  have hself : ((s.socket c i queue stream enqueued).streams c i).share = stream.share := by
    rw [streams_socket_apply, if_pos ⟨rfl, rfl⟩]
  have hgateway : ((s.socket c i queue stream enqueued).incoming c.receiver).length =
      (s.incoming c.receiver).length + enqueuedShare enqueued := by
    simp only [socket, push_self, List.length_append, enqueuedShare]
  simp only [hself] at hsockets
  simp only [hgateway] at hincoming
  simp only [connectionShare, outQueue_socket] at hconnection
  have hmpi : (s.socket c i queue stream enqueued).mpi = s.mpi := rfl
  simp only [stepsLeft, connectionShare, hmpi]
  omega

theorem stepsLeft_forward (h : s.Account u) {m : Bytes} {rest : List Bytes}
    (hincoming : s.incoming gateway = m :: rest) :
    (s.forward u gateway m).stepsLeft u < s.stepsLeft u := by
  have hfirst : m ∈ s.incoming gateway := by
    rw [hincoming]
    exact List.mem_cons_self
  have hmem := h.exists_route hfirst
  have hgateway := sum_add_eq (f := fun gateway => (s.incoming gateway).length)
    (g := fun j => (pop s.incoming gateway j).length) hmem fun j hj => by
      rw [pop, Function.update_of_ne hj]
  simp only [pop, Function.update_self, hincoming, List.tail_cons, List.length_cons] at hgateway
  simp only [stepsLeft, connectionShare, forward, pop, hincoming, List.tail_cons]
  omega

/-- What the gateways do are steps of the network. -/
theorem Moves.isStep (h : Moves u s s') : Step u s s' := by
  cases h with
  | receive hmpi _ => exact .receive hmpi
  | socket hc hi hstep _ => exact .socket hc hi hstep
  | forward hincoming => exact .forward hincoming

theorem Moves.sent_eq (h : Moves u s s') : s'.sent = s.sent := by
  cases h with
  | receive => rfl
  | socket => rfl
  | forward => rfl

/-- Whatever moves, less is left to do. -/
theorem Moves.stepsLeft_lt (h : Moves u s s') (haccount : s.Account u) :
    s'.stepsLeft u < s.stepsLeft u := by
  cases h with
  | receive hmpi _ => exact stepsLeft_receive hmpi
  | socket _ hi hstep hmoved => exact stepsLeft_socket haccount hi hstep hmoved
  | forward hincoming => exact stepsLeft_forward haccount hincoming

/-- Nothing is left on the connections. -/
def Idle (u : Setup) (s : Network) : Prop :=
  ∀ c, ∀ i < u.streams, (s.streams c i).share + queueShare (s.outQueue c) = 0

theorem eq_nil_of_queueShare {ms : List Bytes} (h : queueShare ms = 0) : ms = [] := by
  cases ms with
  | nil => rfl
  | cons m ms =>
      rw [queueShare, List.map_cons, List.sum_cons] at h
      omega

/-- A gateway that has written everything has room. -/
theorem Idle.hasRoom (hidle : s.Idle u) (h : s.Account u) (gateway : Gateway) :
    s.HasRoom u gateway := by
  have hpending : s.pending u gateway = [] := by
    refine List.flatMap_eq_nil_iff.mpr fun target _ => ?_
    have hshare := hidle ⟨gateway.cluster, gateway.rank, target⟩
    have hqueue := eq_nil_of_queueShare
      (Nat.eq_zero_of_add_eq_zero (hshare 0 u.streams_pos)).2
    rw [hqueue, List.nil_append]
    refine List.flatMap_eq_nil_iff.mpr fun i hi => ?_
    have hi' := List.mem_range.mp hi
    cases hmessage : (s.streams ⟨gateway.cluster, gateway.rank, target⟩ i).sender.outMessage with
    | none => rfl
    | some m =>
        obtain ⟨_, hpos⟩ := (h.stream _ i hi').sender m hmessage
        have hzero := (Nat.eq_zero_of_add_eq_zero (hshare i hi')).1
        rw [Stream.share, SocketInfo.pending, hmessage, Option.getD_some, List.length_drop]
          at hzero
        omega
  rw [HasRoom, hpending]
  exact ⟨by decide, by decide⟩

/-- Where nothing is left on the connections, with the processes and at the gateways, everything
has been handed over. -/
theorem Idle.allHanded (hidle : s.Idle u) (h : s.Account u) (hmpi : ∀ p, s.mpi p = [])
    (hincoming : ∀ gateway, s.incoming gateway = []) : s.AllHanded u := by
  intro p q
  have hplaces := (h.conserved p q).places
  have hqueue := eq_nil_of_queueShare
    (Nat.eq_zero_of_add_eq_zero (hidle (u.route p (getClusterRank q)) 0 u.streams_pos)).2
  have hunderway : s.onSockets u Stream.underway (u.route p (getClusterRank q)) = [] := by
    refine List.flatMap_eq_nil_iff.mpr fun i hi => ?_
    have hi' := List.mem_range.mp hi
    have hinv := h.stream (u.route p (getClusterRank q)) i hi'
    have hshare := (Nat.eq_zero_of_add_eq_zero (hidle (u.route p (getClusterRank q)) i hi')).1
    have hwire : (s.streams (u.route p (getClusterRank q)) i).wire = [] := by
      rw [← List.length_eq_zero_iff]
      unfold Stream.share at hshare
      omega
    have hsender : (s.streams (u.route p (getClusterRank q)) i).sender.outMessage = none := by
      cases hmessage : (s.streams (u.route p (getClusterRank q)) i).sender.outMessage with
      | none => rfl
      | some m =>
          obtain ⟨_, hpos⟩ := hinv.sender m hmessage
          rw [Stream.share, SocketInfo.pending, hmessage, Option.getD_some, List.length_drop]
            at hshare
          omega
    rw [Stream.underway, hinv.enqueued_eq hsender hwire, List.drop_length]
  rw [Network.places, hincoming, hunderway, hqueue, hmpi] at hplaces
  simpa only [between, List.filter_nil, List.append_nil] using hplaces

/-- **Where nothing can move**, everything has been handed over. -/
theorem Account.allHanded_or_moves (h : s.Account u) (habroad : s.SentAbroad u)
    (hown : ∀ c : Connection, c.cluster = c.target → ∀ i, s.streams c i = .start (.data u.order)) :
    s.AllHanded u ∨ ∃ t, Moves u s t := by
  by_cases hidle : s.Idle u
  · by_cases hmpi : ∀ p, s.mpi p = []
    · by_cases hincoming : ∀ gateway, s.incoming gateway = []
      · exact Or.inl (hidle.allHanded h hmpi hincoming)
      · push Not at hincoming
        obtain ⟨gateway, hne⟩ := hincoming
        obtain ⟨m, rest, hcons⟩ := List.exists_cons_of_ne_nil hne
        exact Or.inr ⟨_, .forward hcons⟩
    · push Not at hmpi
      obtain ⟨p, hne⟩ := hmpi
      obtain ⟨m, rest, hcons⟩ := List.exists_cons_of_ne_nil hne
      exact Or.inr ⟨_, .receive hcons (hidle.hasRoom h _)⟩
  · unfold Idle at hidle
    push Not at hidle
    obtain ⟨c, i, hi, hne⟩ := hidle
    have hc : c.cluster ≠ c.target := by
      intro hsame
      have hqueue : s.outQueue c = [] := by
        refine List.eq_nil_iff_forall_not_mem.mpr fun m hm => ?_
        obtain ⟨hsent, hcluster, htarget⟩ := h.sent_of_queue hm
        exact habroad _ m hsent (by rw [htarget, hcluster, hsame])
      rw [hown c hsame i, hqueue] at hne
      exact hne rfl
    obtain ⟨enqueued, queue, stream, hstep, hmoved⟩ :=
      (h.stream c i hi).exists_move (Nat.pos_of_ne_zero hne)
    exact Or.inr ⟨_, .socket hc hi hstep hmoved⟩

/-- **A message for its own cluster** is not handed over. -/
theorem Account.sentAbroad_of_allHanded (h : s.Account u)
    (hown : ∀ c : Connection, c.cluster = c.target → ∀ i, s.streams c i = .start (.data u.order))
    (hhanded : s.AllHanded u) : s.SentAbroad u := by
  intro p m hm hsame
  have hsent : m ∈ between u p (dstPid u.order m) (s.sent p) :=
    List.mem_filter.mpr ⟨hm, decide_eq_true ⟨h.srcPid_sent hm, rfl⟩⟩
  have hsockets : s.onSockets u Stream.enqueued
      (u.route p (getClusterRank (dstPid u.order m))) = [] := by
    refine List.flatMap_eq_nil_iff.mpr fun i _ => ?_
    rw [hown _ hsame.symm i]
    rfl
  have hread := (h.between_handed p (dstPid u.order m)).mem_iff.mp
    (List.mem_append_left _ ((hhanded p (dstPid u.order m)).mem_iff.mpr hsent))
  rw [hsockets] at hread
  exact absurd hread List.not_mem_nil

end Network

/-- **What has been sent arrives**: from every state of a run, the gateways come to their end, and
then everything has been handed over, if and only if it goes to other clusters. -/
theorem Setup.drains (u : Setup) : u.Drains := by
  intro s h
  have hreach : ∀ {t}, Relation.ReflTransGen (Network.Moves u) s t → Network.Reachable u t :=
    fun hrun => h.trans <| Relation.ReflTransGen.mono
      (fun _ _ (hmoves : Network.Moves u _ _) => hmoves.isStep) _ _ hrun
  constructor
  · intro hends
    obtain ⟨t, hrun, _, hsent, hhanded⟩ := hends.completes
    have habroad := (Network.account_of_reachable (hreach hrun)).sentAbroad_of_allHanded
      (fun c hc => Network.streams_own_of_reachable (hreach hrun) hc) hhanded
    rwa [Network.SentAbroad, hsent] at habroad
  · intro habroad
    refine endsIn_of_measure
      (I := fun t => Relation.ReflTransGen (Network.Moves u) s t ∧ t.sent = s.sent)
      (μ := Network.stepsLeft u) ⟨.refl, rfl⟩ ?_ ?_
    · rintro t t' ⟨hrun, hsent⟩ hmoves
      exact ⟨⟨hrun.tail hmoves, hmoves.sent_eq.trans hsent⟩,
        hmoves.stepsLeft_lt (Network.account_of_reachable (hreach hrun))⟩
    · rintro t ⟨hrun, hsent⟩
      have habroad' : t.SentAbroad u := by
        rwa [Network.SentAbroad, hsent]
      refine ((Network.account_of_reachable (hreach hrun)).allHanded_or_moves habroad'
        fun c hc => Network.streams_own_of_reachable (hreach hrun) hc).imp_left ?_
      exact fun hhanded => ⟨hsent, hhanded⟩

end EsalsaMpi
