import EsalsaMpi.Gateway.MainLoop.Termination

/-!
# The gateways of a cluster

The master gateway reads the replies of the server and forwards them by MPI, also to the other
gateways.  All gateways take their steps in any order.

If the server addresses only replies to `FINALIZE` to gateways, each gateway is done exactly if
it has processed its own, and the master gateway not before it has forwarded everything in front
of it (`Site.stopsInTime_of_reachable`).
-/

namespace EsalsaMpi

namespace MainLoop

open Wire Queues

/-- The gateways of a cluster, which have the last of its MPI ranks. -/
structure Site where
  clusterCount : Nat
  clusterRank : Nat
  size : Nat
  gatewayCount : Nat
  streams : Nat → Nat → Nat
  streams_pos : ∀ r k, 0 < streams r k
  order : ByteOrder
  clusterRank_lt : clusterRank < maxClusters
  size_le : size ≤ maxProcessesPerCluster
  gatewayCount_le : gatewayCount ≤ size

/-- The MPI rank of the gateway that has the `gateway_rank` `r`. -/
def Site.rank (u : Site) (r : Nat) : Nat := u.size - (r + 1)

/-- The gateway that has the `gateway_rank` `r`. -/
def Site.process (u : Site) (r : Nat) : Process where
  clusterCount := u.clusterCount
  clusterRank := u.clusterRank
  gatewayRank := r
  myPid := setPid u.clusterRank (u.rank r)
  streams := u.streams r
  streams_pos := u.streams_pos r
  order := u.order

/-- A message that the server sends: its size is that in its header, and if it is addressed to a
gateway of the cluster, it is a reply to `FINALIZE`. -/
structure Site.FromServer (u : Site) (m : Bytes) : Prop where
  wellSized : genericMessageSize ≤ m.length ∧ headerLength .server u.order m = m.length
  finalize : ∀ r < u.gatewayCount, destination u.order m = (u.process r).myPid →
    opcode u.order m = opcodeFinalizeReply

/-- The main loops of the gateways with what they have done, and the replies that have been
forwarded to each MPI rank but not received. -/
structure Gateways where
  loops : Nat → State
  traces : Nat → List Action
  mail : Nat → List Bytes

/-- The start of all main loops. -/
def Site.start (u : Site) : Gateways := ⟨fun r => .start (u.process r), fun _ => [], fun _ => []⟩

/-- What a gateway may receive: a reply that has been forwarded to it, or a message that the
server sends. -/
def Site.Permits (u : Site) (s : Gateways) (r : Nat) : Action → Prop
  | .reply (some m) => ∃ rest, s.mail (u.rank r) = m :: rest
  | .read .server (some m) => u.FromServer m
  | _ => True

/-- The replies on their way after an action of a gateway.  `forward_mpi_message` sends as many
bytes as the header tells. -/
def Site.mailAfter (u : Site) (mail : Nat → List Bytes) (r : Nat) : Action → Nat → List Bytes
  | .reply (some _) => pop mail (u.rank r)
  | .forwardedReply m => push mail (getProcessRank (destination u.order m))
      [m.take (headerLength .server u.order m)]
  | _ => mail

/-- A step of a gateway. -/
inductive Site.Moves (u : Site) : Gateways → Gateways → Prop where
  | gateway {s : Gateways} {r : Nat} {a : Action} {t : State} (hr : r < u.gatewayCount)
      (hstep : Step (u.process r) (s.loops r) a t) (hpermits : u.Permits s r a) :
      Moves u s
        { loops := Function.update s.loops r t
          traces := Function.update s.traces r (s.traces r ++ [a])
          mail := u.mailAfter s.mail r a }

/-- The runs of the gateways. -/
def Site.Reachable (u : Site) : Gateways → Prop := Relation.ReflTransGen u.Moves u.start

/-- **The gateways stop in time.** -/
structure Site.StopsInTime (u : Site) (s : Gateways) : Prop where
  /-- The flag is set exactly if a reply to `FINALIZE` for the gateway has been processed. -/
  done_iff : ∀ r < u.gatewayCount,
    (s.loops r).done = true ↔ Finalized (u.process r) (s.traces r)
  /-- The flag is not reset. -/
  done_step : ∀ r < u.gatewayCount, ∀ a t, Step (u.process r) (s.loops r) a t →
    (s.loops r).done = true → t.done = true
  /-- The loop is left with the flag only, and nothing is received once it is set. -/
  exited : ∀ r < u.gatewayCount, (s.loops r).place = .exited → (s.loops r).done = true
  ending : ∀ r < u.gatewayCount, (s.loops r).done = true → (s.loops r).place.Ending
  /-- The master gateway has forwarded all replies in front of its own. -/
  forwarded : 0 < u.gatewayCount → (s.loops 0).done = true →
    ∃ before fin after, repliesRead (s.traces 0) = before ++ fin :: after ∧
      (u.process 0).IsFinalizeReply fin ∧ before <+: repliesForwarded (s.traces 0)

variable {u : Site} {s s' : Gateways} {r : Nat} {m : Bytes}

/-- A PID of the cluster is that of a gateway if its rank is. -/
theorem Site.myPid_of_rank {pid : Pid} (hr : r < u.gatewayCount)
    (hcluster : getClusterRank pid = u.clusterRank) (hrank : getProcessRank pid = u.rank r) :
    pid = (u.process r).myPid := by
  have hlt : u.rank r < maxProcessesPerCluster := by
    have hsize := u.size_le
    have hcount := u.gatewayCount_le
    unfold rank
    omega
  refine pid_ext ?_ ?_
  · rw [hcluster]
    exact (getClusterRank_setPid u.clusterRank_lt hlt).symm
  · rw [hrank]
    exact (getProcessRank_setPid u.clusterRank_lt hlt).symm

/-- What holds between the steps of the gateways. -/
structure Site.Inv (u : Site) (s : Gateways) : Prop where
  run : ∀ r, Run (u.process r) (s.traces r) (s.loops r)
  queue : ∀ r, ∀ m ∈ (s.loops r).serverQueueIn, u.FromServer m ∧ r = 0
  mail : ∀ r < u.gatewayCount, ∀ m ∈ s.mail (u.rank r),
    (u.process r).IsFinalizeReply m ∧ r ≠ 0
  replies : ∀ r, ∀ m, .reply (some m) ∈ s.traces r → (u.process r).IsFinalizeReply m ∧ r ≠ 0

/-- What is in the queue of a gateway after a step was there before or is from the server. -/
theorem Site.Inv.queue_step (h : u.Inv s) {a : Action} {t : State}
    (hstep : Step (u.process r) (s.loops r) a t) (hpermits : u.Permits s r a) :
    ∀ m ∈ t.serverQueueIn, u.FromServer m ∧ r = 0 := by
  intro m hm
  cases hstep.serves with
  | aside _ _ _ _ hqueue => exact h.queue r m (hqueue ▸ hm)
  | reply _ _ _ _ hqueue => exact h.queue r m (hqueue ▸ hm)
  | processed m' rest _ hqueue _ _ heq =>
      rw [heq] at hm
      exact h.queue r m (by rw [hqueue]; exact List.mem_cons_of_mem m' hm)
  | forwarded m' rest _ hqueue _ _ _ heq =>
      rw [heq] at hm
      exact h.queue r m (by rw [hqueue]; exact List.mem_cons_of_mem m' hm)
  | dropped m' rest _ hqueue heq =>
      rw [heq] at hm
      exact h.queue r m (by rw [hqueue]; exact List.mem_cons_of_mem m' hm)
  | read m' ha _ _ _ hqueue hmaster =>
      rw [hqueue] at hm
      rcases List.mem_append.mp hm with hm | hm
      · exact h.queue r m hm
      · obtain rfl := Option.mem_toList.mp hm
        subst ha
        refine ⟨hpermits, ?_⟩
        by_contra hr
        refine hmaster ?_
        have hlength := shaped_of_run (h.run r) .server
        rw [← List.length_eq_zero_iff, hlength, Process.connection]
        simp [process, hr]

/-- A message that is forwarded to a gateway is its reply to `FINALIZE`, and the gateway is not
the master. -/
theorem Site.Inv.forwarded (h : u.Inv s) {i : Nat} (hi : i < u.gatewayCount)
    {rest : List Bytes} (hqueue : (s.loops r).serverQueueIn = m :: rest)
    (hpid : destination u.order m ≠ (u.process r).myPid)
    (hcluster : getClusterRank (destination u.order m) = u.clusterRank)
    (hrank : u.rank i = getProcessRank (destination u.order m)) :
    (u.process i).IsFinalizeReply (m.take (headerLength .server u.order m)) ∧ i ≠ 0 := by
  obtain ⟨hserver, rfl⟩ := h.queue r m (by rw [hqueue]; exact List.mem_cons_self)
  have hdestination := Site.myPid_of_rank hi hcluster hrank.symm
  rw [hserver.wellSized.2, List.take_length]
  refine ⟨⟨hserver.finalize i hi hdestination, hdestination⟩, ?_⟩
  rintro rfl
  exact hpid hdestination

theorem Site.Inv.step (h : u.Inv s) (hstep : u.Moves s s') : u.Inv s' := by
  cases hstep with
  | @gateway r a t hr hstep hpermits =>
      refine
        { run := fun i => ?_
          queue := fun i => ?_
          mail := fun i hi m hm => ?_
          replies := fun i m hm => ?_ }
      · by_cases hi : i = r
        · subst hi
          simp only [Function.update_self]
          exact (h.run i).step hstep
        · simp only [Function.update_of_ne hi]
          exact h.run i
      · by_cases hi : i = r
        · subst hi
          simp only [Function.update_self]
          exact h.queue_step hstep hpermits
        · simp only [Function.update_of_ne hi]
          exact h.queue i
      · cases a with
        | reply received =>
            cases received with
            | none => exact h.mail i hi m hm
            | some _ => exact h.mail i hi m (mem_of_mem_pop hm)
        | forwardedReply m' =>
            rcases mem_push.mp hm with hm | ⟨hrank, hm⟩
            · exact h.mail i hi m hm
            · rw [List.mem_singleton.mp hm]
              cases hstep.serves with
              | aside hhandled => cases hhandled
              | reply _ ha => cases ha
              | processed _ _ ha => cases ha
              | forwarded m'' rest ha hqueue hpid hcluster =>
                  cases ha
                  exact h.forwarded hi hqueue hpid hcluster hrank
              | dropped _ _ ha => cases ha
              | read _ ha => cases ha
        | _ => exact h.mail i hi m hm
      · by_cases hi : i = r
        · subst hi
          simp only [Function.update_self] at hm
          rcases List.mem_append.mp hm with hm | hm
          · exact h.replies i m hm
          · rw [← List.mem_singleton.mp hm] at hpermits
            obtain ⟨rest, hmail⟩ := hpermits
            exact h.mail i hr m (by rw [hmail]; exact List.mem_cons_self)
        · simp only [Function.update_of_ne hi] at hm
          exact h.replies i m hm

theorem Site.inv_of_reachable (h : u.Reachable s) : u.Inv s := by
  induction h with
  | refl =>
      exact
        { run := fun r => .start
          queue := fun r m hm => absurd hm List.not_mem_nil
          mail := fun r _ m hm => absurd hm List.not_mem_nil
          replies := fun r m hm => absurd hm List.not_mem_nil }
  | tail _ hstep ih => exact ih.step hstep

/-- **In every run**, the gateways stop in time. -/
theorem Site.stopsInTime_of_reachable (h : u.Reachable s) : u.StopsInTime s := by
  have hinv := Site.inv_of_reachable h
  refine
    { done_iff := fun r _ => done_iff_finalized (hinv.run r) fun m hm => (hinv.replies r m hm).1
      done_step := fun r _ a t hstep hdone => done_of_step (hinv.run r) hstep hdone
      exited := fun r _ => (flagInv_of_run (hinv.run r)).exited
      ending := fun r _ => (flagInv_of_run (hinv.run r)).ending
      forwarded := fun _ hdone => ?_ }
  obtain ⟨m, hm, hprocessed | hreply⟩ := (done_iff_finalized (hinv.run 0)
    fun m hm => (hinv.replies 0 m hm).1).mp hdone
  · obtain ⟨before, fin, after, hread, hfin, _, hforwarded⟩ :=
      forwarded_of_processed (hinv.run 0) hprocessed hm.destination
    exact ⟨before, fin, after, hread, hfin, hforwarded⟩
  · exact absurd rfl (hinv.replies 0 m hreply).2

/-- A run of the master gateway in which it receives no reply by MPI. -/
theorem Site.reachable_of_run (hgateways : 0 < u.gatewayCount) {trace : List Action} {t : State}
    (h : Run (u.process 0) trace t) (hreplies : ∀ m, .reply (some m) ∉ trace)
    (hreads : ∀ m, .read .server (some m) ∈ trace → u.FromServer m) :
    ∃ s, u.Reachable s ∧ s.loops 0 = t ∧ s.traces 0 = trace := by
  induction h with
  | start => exact ⟨u.start, .refl, rfl, rfl⟩
  | @step trace t t' a _ hstep ih =>
      obtain ⟨s, hs, rfl, rfl⟩ := ih (fun m hm => hreplies m (List.mem_append_left _ hm))
        fun m hm => hreads m (List.mem_append_left _ hm)
      have hmem : a ∈ s.traces 0 ++ [a] := by simp
      have hpermits : u.Permits s 0 a := by
        unfold Permits
        split
        · exact absurd hmem (hreplies _)
        · exact hreads _ hmem
        · trivial
      refine ⟨_, hs.tail (.gateway hgateways hstep hpermits), ?_, ?_⟩
      · exact Function.update_self 0 t' s.loops
      · exact Function.update_self 0 (s.traces 0 ++ [a]) s.traces

/-- The only gateway of a cluster with one process. -/
def onlyGateway : Site where
  clusterCount := 2
  clusterRank := 0
  size := 2
  gatewayCount := 1
  streams := fun _ _ => 1
  streams_pos := fun _ _ => Nat.one_pos
  order := .little
  clusterRank_lt := by decide
  size_le := by decide
  gatewayCount_le := by decide

/-- Its reply to `FINALIZE`. -/
def lastReply : Bytes := [0, 0, 0, 59, 255, 255, 255, 255, 0, 0, 0, 1, 0, 0, 0, 16]

/-- The gateway reads its reply, and is done. -/
theorem stopsInTime_lastReply : ∃ s, onlyGateway.Reachable s ∧ (s.loops 0).done = true ∧
    onlyGateway.StopsInTime s := by
  have h := run_receiveData (onlyGateway.process 0)
  let e : SocketEvent := ⟨.server, 0, false, true, false⟩
  let g := onlyGateway.process 0
  let results : Nat → ReadResult := fun n => [.bytes lastReply].getD n .wouldBlock
  have hpolls : (State.mk (fun p => (g.connection p).prepareMessages g.order) [] [] 0 0 [] false
      .poll).Polls [e] := by
    refine ⟨by decide, by decide, fun e' he' => ?_⟩
    rw [List.mem_singleton.mp he']
    exact ⟨_, rfl, fun h => by cases h⟩
  have hfirst : nonblockReadMessage ⟨fun _ => true, fun _ => 0⟩ .little results (.init .server) 2 =
      some (.success true ⟨.server, none, 16, none, 0, 0⟩ (some lastReply)) := rfl
  have hsecond : nonblockReadMessage ⟨fun _ => true, fun _ => 0⟩ .little (fun _ => .wouldBlock)
      ⟨.server, none, 16, none, 0, 0⟩ 1 =
      some (.success false ⟨.server, some [], 16, none, 0, 0⟩ none) := rfl
  have hpoll := ((h.step (Step.dataReceived rfl)).step (Step.prepare rfl)).step
    (Step.poll rfl hpolls)
  have hread := ((hpoll.step (Step.event rfl rfl)).step (Step.read rfl rfl hfirst)).step
    (Step.read rfl rfl hsecond)
  have hloop := ((hread.step (Step.handled rfl)).step (Step.noRequest rfl)).step
    (Step.reply (m := none) rfl rfl)
  have hdone := hloop.step (Step.processed rfl rfl rfl rfl)
  obtain ⟨s, hs, hstate, _⟩ := Site.reachable_of_run (by decide) hdone (by simp) (by
    intro m hm
    have hm : Peer.server = e.peer ∧ m = lastReply := by simpa using hm
    obtain ⟨_, rfl⟩ := hm
    exact ⟨by decide, fun _ _ _ => rfl⟩)
  refine ⟨s, hs, ?_, Site.stopsInTime_of_reachable hs⟩
  rw [hstate]

end MainLoop

end EsalsaMpi
