import EsalsaMpi.Shutdown.Closing.Links

/-!
# Who waits is told

For the closing to come to its end, what a process or a gateway waits for has to be on its way.
When the server carries out `FINALIZE`, it frees the communicator of the world and then tells
everybody: from then on whoever still waits for `FINALIZE_REPLY` has a reply on its way (`Told`).
And no link of the chain is lost: where a master gateway has asked, the server has the question or
has counted it, and where the server has answered, the master gateway has the answer or has gone
on (`Answering`).
-/

namespace EsalsaMpi

namespace Closing

open Server (CommunicatorRequest Reply Job)
open Queues

variable {cfg : Server.Config} {order : Server.HashOrder} {s s' : State} {k : Nat} {g p pid : Pid}

/-! ### Questions and answers -/

/-- **Questions and answers** are not lost. -/
structure Answering (cfg : Server.Config) (s : State) : Prop where
  asked : ∀ k < cfg.numberOfClusters, 3 ≤ s.masterStage cfg k →
    .closeLink ∈ s.toServer k ∨ (s.receiver k).hasFinished
  done : ∀ k, (s.receiver k).hasFinished → s.done k
  closed : ∀ k < cfg.numberOfClusters, (s.sender k).hasClosed →
    .closeLink ∈ s.toMaster k ∨ 4 ≤ s.masterStage cfg k
  masterOnly : ∀ k < cfg.numberOfClusters, ∀ g ∈ gateways cfg k, s.gateway g = .asked →
    g = master cfg k

/-- A gateway goes to another place, and neither asks nor goes back behind the answer. -/
theorem Answering.goTo (h : Answering cfg s) {place : Place} (hplace : place ≠ .asked)
    (hasked : 3 ≤ place.stage → 3 ≤ (s.gateway g).stage)
    (hanswered : 4 ≤ (s.gateway g).stage → 4 ≤ place.stage) : Answering cfg (s.goTo g place) := by
  have hstage : ∀ k, (s.goTo g place).masterStage cfg k = s.masterStage cfg k ∨
      (s.masterStage cfg k = (s.gateway g).stage ∧
        (s.goTo g place).masterStage cfg k = place.stage) := by
    intro k
    simp only [State.masterStage, State.goTo]
    by_cases heq : master cfg k = g
    · rw [heq, Function.update_self]
      exact Or.inr ⟨rfl, rfl⟩
    · rw [Function.update_of_ne heq]
      exact Or.inl rfl
  refine ⟨fun k hk hle => ?_, h.done, fun k hk hclosed => ?_, fun k hk g' hg' hasked' => ?_⟩
  · refine h.asked k hk ?_
    rcases hstage k with heq | ⟨hold, hnew⟩
    · rwa [← heq]
    · rw [hold]
      exact hasked (hnew ▸ hle)
  · refine (h.closed k hk hclosed).imp_right fun hle => ?_
    rcases hstage k with heq | ⟨hold, hnew⟩
    · rwa [heq]
    · rw [hnew]
      exact hanswered (hold ▸ hle)
  · refine h.masterOnly k hk g' hg' ?_
    simp only [State.goTo] at hasked'
    by_cases heq : g' = g
    · subst heq
      rw [Function.update_self] at hasked'
      exact absurd hasked' hplace
    · rwa [Function.update_of_ne heq] at hasked'

/-- A thread of the server that has not finished goes on to another job. -/
theorem Answering.receive (h : Answering cfg s) {receiver : Receiver}
    (hbefore : (s.receiver k).hasFinished = false) (hafter : receiver.hasFinished = false) :
    Answering cfg { s with receiver := Function.update s.receiver k receiver } := by
  have hfinished : ∀ j, (Function.update s.receiver k receiver j).hasFinished =
      (s.receiver j).hasFinished := by
    intro j
    by_cases hj : j = k
    · subst hj
      rw [Function.update_self, hbefore, hafter]
    · rw [Function.update_of_ne hj]
  refine ⟨fun j hj hle => ?_, fun j hdone => ?_, h.closed, h.masterOnly⟩
  · simp only [hfinished]
    exact h.asked j hj hle
  · simp only [hfinished] at hdone
    exact h.done j hdone

/-- A sender thread goes on. -/
theorem Answering.send (h : Answering cfg s) {sender : Sender}
    (hafter : sender.hasClosed = false) :
    Answering cfg { s with sender := Function.update s.sender k sender } := by
  refine ⟨h.asked, h.done, fun j hj hclosed => h.closed j hj ?_, h.masterOnly⟩
  simp only at hclosed
  by_cases heq : j = k
  · subst heq
    rw [Function.update_self, hafter] at hclosed
    cases hclosed
  · rwa [Function.update_of_ne heq] at hclosed

theorem Answering.forwardServerMessage (h : Answering cfg s) :
    Answering cfg (s.forwardServerMessage cfg k) := by
  unfold State.forwardServerMessage
  split
  · rename_i hloop
    have hstage : (s.gateway (master cfg k)).stage = 0 := by
      revert hloop
      cases s.gateway (master cfg k) <;> simp [Place.inLoop, Place.stage]
    have hfailed : Answering cfg (s.goTo (master cfg k) .failed) :=
      h.goTo (by simp) (by simp [Place.stage]) (by omega)
    split
    · exact h
    · split
      · split
        · have hgone : Answering cfg (s.goTo (master cfg k) (.loop true)) :=
            h.goTo (by simp) (by simp [Place.stage]) (by omega)
          exact { hgone with }
        · exact hfailed
      · split
        · exact { h with }
        · exact hfailed
  · exact h

theorem Answering.receiveMpiServerReply (h : Answering cfg s) :
    Answering cfg (s.receiveMpiServerReply g) := by
  unfold State.receiveMpiServerReply
  split
  · rename_i hloop
    have hstage : (s.gateway g).stage = 0 := by
      revert hloop
      cases s.gateway g <;> simp [Place.inLoop, Place.stage]
    split
    · exact h
    · split
      · have hgone : Answering cfg (s.goTo g (.loop true)) :=
          h.goTo (by simp) (by simp [Place.stage]) (by omega)
        exact { hgone with }
      · exact h.goTo (by simp) (by simp [Place.stage]) (by omega)
  · exact h

/-- The master gateway asks. -/
theorem Answering.sendCloseLink (h : Answering cfg s) (hk : k < cfg.numberOfClusters) :
    Answering cfg (s.sendCloseLink cfg k) := by
  unfold State.sendCloseLink
  split
  · rename_i hplace
    have hother : ∀ j < cfg.numberOfClusters, j ≠ k →
        Function.update s.gateway (master cfg k) .asked (master cfg j) =
          s.gateway (master cfg j) := by
      intro j hj hne
      refine Function.update_of_ne (fun heq => hne ?_) _ _
      have hmem : master cfg j ∈ gateways cfg k := by
        rw [heq]
        exact master_mem k
      exact gateway_unique hj hk (master_mem j) hmem
    refine ⟨fun j hj hle => ?_, h.done, fun j hj hclosed => ?_, fun j hj g' hg' hasked => ?_⟩
    · by_cases heq : j = k
      · subst heq
        exact Or.inl (mem_push.mpr (Or.inr ⟨rfl, List.mem_singleton_self _⟩))
      · simp only [State.masterStage, hother j hj heq] at hle
        exact (h.asked j hj hle).imp_left fun hmem => mem_push.mpr (Or.inl hmem)
    · refine (h.closed j hj hclosed).imp_right fun hle => ?_
      have hne : j ≠ k := by
        rintro rfl
        rw [State.masterStage, hplace] at hle
        exact absurd hle (by decide)
      simpa only [State.masterStage, hother j hj hne] using hle
    · by_cases heq : g' = master cfg k
      · subst heq
        rw [gateway_unique hj hk hg' (master_mem k)]
      · simp only [Function.update_of_ne heq] at hasked
        exact h.masterOnly j hj g' hg' hasked
  · exact h

/-- The master gateway takes its answer. -/
theorem Answering.receiveCloseLink (h : Answering cfg s) (hk : k < cfg.numberOfClusters) :
    Answering cfg (s.receiveCloseLink cfg k) := by
  unfold State.receiveCloseLink
  split
  · rename_i hplace
    split
    · exact h
    · rename_i x rest hlink
      have hgone : Answering cfg (s.goTo (master cfg k) .gatewayBarrier) := by
        refine h.goTo (by simp) (fun _ => ?_) (fun _ => Nat.le_refl 4)
        rw [hplace]
        exact Nat.le_refl 3
      refine ⟨hgone.asked, hgone.done, fun j hj hclosed => ?_, hgone.masterOnly⟩
      by_cases heq : j = k
      · subst heq
        right
        simp only [State.masterStage, Function.update_self]
        exact Nat.le_refl 4
      · refine (hgone.closed j hj hclosed).imp_left fun hmem => ?_
        simp only [Function.update_of_ne heq]
        exact hmem
  · exact h

/-- The other gateways are not asked. -/
theorem Answering.skipCloseLink (h : Answering cfg s) (hk : k < cfg.numberOfClusters)
    (hg : g ∈ gateways cfg k) : Answering cfg (s.skipCloseLink cfg k g) := by
  unfold State.skipCloseLink
  split
  · rename_i hplace
    have hmaster : ∀ j < cfg.numberOfClusters,
        (s.goTo g .gatewayBarrier).masterStage cfg j = s.masterStage cfg j := by
      intro j hj
      simp only [State.masterStage, State.goTo]
      rw [Function.update_of_ne]
      rintro rfl
      exact hplace.1 (congrArg (master cfg) (gateway_unique hj hk (master_mem j) hg))
    refine ⟨fun j hj hle => ?_, h.done, fun j hj hclosed => ?_, fun j hj g' hg' hasked => ?_⟩
    · rw [hmaster j hj] at hle
      exact h.asked j hj hle
    · rw [hmaster j hj]
      exact h.closed j hj hclosed
    · simp only [State.goTo] at hasked
      by_cases heq : g' = g
      · subst heq
        rw [Function.update_self] at hasked
        cases hasked
      · rw [Function.update_of_ne heq] at hasked
        exact h.masterOnly j hj g' hg' hasked
  · exact h

/-- The thread takes a message of the master gateway. -/
theorem Answering.receiveMessage (h : Answering cfg s) :
    Answering cfg (s.receiveMessage cfg order k) := by
  unfold State.receiveMessage
  split
  · rename_i req rest hreceiver hlink
    split
    · exact h
    · have hread : Answering cfg { s with
          receiver := Function.update s.receiver k
            (.working req (Server.admitRequest cfg order s.communicators req).2 []) } :=
        h.receive (by rw [hreceiver]; rfl) rfl
      refine ⟨fun j hj hle => ?_, hread.done, hread.closed, hread.masterOnly⟩
      refine (hread.asked j hj hle).imp_left fun hmem => ?_
      by_cases heq : j = k
      · subst heq
        simp only [hlink, List.mem_cons, reduceCtorEq, false_or] at hmem
        simpa only [Function.update_self] using hmem
      · simpa only [Function.update_of_ne heq] using hmem
  · rename_i rest hreceiver hlink
    refine ⟨fun j hj hle => ?_, fun j hdone => ?_, h.closed, h.masterOnly⟩
    · by_cases heq : j = k
      · subst heq
        simp only [Function.update_self]
        exact Or.inr rfl
      · simpa only [Function.update_of_ne heq] using h.asked j hj hle
    · by_cases heq : j = k
      · subst heq
        simp only [Function.update_self]
      · simp only [Function.update_of_ne heq] at hdone ⊢
        exact h.done j hdone
  · exact h

theorem Answering.clusterDone (h : Answering cfg s) : Answering cfg (s.clusterDone k) := by
  unfold State.clusterDone
  split
  · rename_i hreceiver
    have hfinished : ∀ j, (Function.update s.receiver k .stopped j).hasFinished =
        (s.receiver j).hasFinished := by
      intro j
      by_cases hj : j = k
      · subst hj
        rw [Function.update_self, hreceiver]
        rfl
      · rw [Function.update_of_ne hj]
    refine ⟨fun j hj hle => ?_, fun j hdone => ?_, h.closed, h.masterOnly⟩
    · simp only [hfinished]
      exact h.asked j hj hle
    · simp only [hfinished] at hdone
      exact h.done j hdone
  · exact h

theorem Answering.closeSocket (h : Answering cfg s) : Answering cfg (s.closeSocket cfg k) := by
  unfold State.closeSocket
  split
  · split
    · exact h
    · refine ⟨h.asked, h.done, fun j hj hclosed => ?_, h.masterOnly⟩
      by_cases heq : j = k
      · subst heq
        exact Or.inl (mem_push.mpr (Or.inr ⟨rfl, List.mem_singleton_self _⟩))
      · simp only [Function.update_of_ne heq] at hclosed
        exact (h.closed j hj hclosed).imp_left fun hmem => mem_push.mpr (Or.inl hmem)
  · exact h

/-- **Every event keeps questions and answers.** -/
theorem Answering.step (h : Answering cfg s) (e : Event) : Answering cfg (s.step cfg order e) := by
  unfold State.step
  split
  · rename_i hpossible
    cases e with
    | call req =>
        simp only [State.change, State.call]
        split
        · exact { h with }
        · exact h
    | messagingFinalize pid =>
        simp only [State.change, State.messagingFinalize]
        split
        · exact { h with }
        · exact h
    | receiveServerMessage pid =>
        simp only [State.change, State.receiveServerMessage]
        split
        · exact { h with }
        · exact { h with }
        · exact h
    | finish k pid =>
        simp only [State.change, State.finish]
        split
        · exact { h with }
        · exact h
    | receiveMpiServerRequest k pid =>
        simp only [State.change, State.receiveMpiServerRequest]
        split
        · split
          · exact h
          · exact { h with }
        · exact h
    | writeServerMessage k =>
        simp only [State.change, State.writeServerMessage]
        split
        · split
          · exact h
          · exact { h with
              asked := fun j hj hle => (h.asked j hj hle).imp_left fun hmem =>
                mem_push.mpr (Or.inl hmem) }
        · exact h
    | readServerMessage k =>
        simp only [State.change, State.readServerMessage]
        split
        · split
          · rename_i m rest hlink
            refine { h with closed := fun j hj hclosed => ?_ }
            refine (h.closed j hj hclosed).imp_left fun hmem => ?_
            by_cases heq : j = k
            · subst heq
              simp only [hlink, List.mem_cons, reduceCtorEq, false_or] at hmem
              simpa only [Function.update_self] using hmem
            · simpa only [Function.update_of_ne heq] using hmem
          · exact h
        · exact h
    | forwardServerMessage k => exact h.forwardServerMessage
    | receiveMpiServerReply k g => exact h.receiveMpiServerReply
    | exitLoop k g =>
        simp only [State.change, State.exitLoop]
        split
        · rename_i hplace
          exact h.goTo (by simp) (by simp [Place.stage]) (by simp [hplace, Place.stage])
        · exact h
    | startCleanup k g =>
        simp only [State.change, State.startCleanup]
        split
        · rename_i hplace
          exact h.goTo (by simp) (by simp [Place.stage]) (by simp [hplace.1, Place.stage])
        · exact h
    | sendCloseLink k => exact h.sendCloseLink hpossible
    | receiveCloseLink k => exact h.receiveCloseLink hpossible
    | skipCloseLink k g => exact h.skipCloseLink hpossible.1 hpossible.2
    | startDisconnecting k g =>
        simp only [State.change, State.startDisconnecting]
        split
        · rename_i hplace
          exact h.goTo (by simp) (by simp [hplace.1, Place.stage]) (by simp [Place.stage])
        · exact h
    | disconnectGateway k g =>
        simp only [State.change, State.disconnectGateway]
        split
        · rename_i hplace
          split
          · exact h.goTo (by simp) (by simp [hplace, Place.stage]) (by simp [Place.stage])
          · exact h
        · exact h
    | receiveMessage k => exact h.receiveMessage
    | runJob k =>
        simp only [State.change, State.runJob]
        split
        · rename_i hreceiver
          split
          · exact h.receive (by rw [hreceiver]; rfl) rfl
          · exact { h.receive (by rw [hreceiver]; rfl) rfl with }
        · exact h
    | enqueueReply k =>
        simp only [State.change, State.enqueueReply]
        split
        · rename_i hreceiver
          exact { h.receive (by rw [hreceiver]; rfl) rfl with }
        · exact h
    | returnFromDelivery k =>
        simp only [State.change, State.returnFromDelivery]
        split
        · rename_i hreceiver
          exact h.receive (by rw [hreceiver]; rfl) rfl
        · exact h
    | clusterDone k => exact h.clusterDone
    | dequeue k =>
        simp only [State.change, State.dequeue]
        split
        · exact { h.send rfl with }
        · split
          · exact h.send rfl
          · exact h
        · exact h
    | sendMessage k =>
        simp only [State.change, State.sendMessage]
        split
        · have hsent : Answering cfg { s with
              sender := Function.update s.sender k .sending } := h.send rfl
          refine { hsent with closed := fun j hj hclosed => ?_ }
          exact (hsent.closed j hj hclosed).imp_left fun hmem => mem_push.mpr (Or.inl hmem)
        · exact h
    | closeSocket k => exact h.closeSocket
  · exact h

theorem answering_start : Answering cfg (start cfg) where
  asked _ _ hle := absurd hle (by simp [State.masterStage, start, Place.stage])
  done _ hfinished := by cases hfinished
  closed _ _ hclosed := by cases hclosed
  masterOnly _ _ _ _ hasked := by cases hasked

/-! ### Applications and gateways -/

/-- Who has not finished is an application process. -/
def ClientsOnly (cfg : Server.Config) (s : State) : Prop :=
  ∀ pid, s.application pid ≠ .finished → cfg.IsApplication pid

theorem ClientsOnly.update (h : ClientsOnly cfg s) (hpid : s.application pid ≠ .finished)
    {phase : Phase} (q : Pid) (hq : Function.update s.application pid phase q ≠ .finished) :
    cfg.IsApplication q := by
  by_cases heq : q = pid
  · rw [heq]
    exact h pid hpid
  · rw [Function.update_of_ne heq] at hq
    exact h q hq

theorem ClientsOnly.step (h : ClientsOnly cfg s) (e : Event) :
    ClientsOnly cfg (s.step cfg order e) := by
  unfold State.step
  split
  · cases e with
    | call req =>
        simp only [State.change, State.call]
        split
        · rename_i hphase
          exact h.update (by rw [hphase.1]; simp)
        · exact h
    | messagingFinalize pid =>
        simp only [State.change, State.messagingFinalize]
        split
        · rename_i hphase
          exact h.update (by rw [hphase]; simp)
        · exact h
    | receiveServerMessage pid =>
        simp only [State.change, State.receiveServerMessage]
        split
        · rename_i hphase
          exact h.update (by rw [hphase]; simp)
        · rename_i hphase
          exact h.update (by rw [hphase]; simp)
        · exact h
    | finish k pid =>
        simp only [State.change, State.finish]
        split
        · rename_i hphase
          exact h.update (by rw [hphase.1]; simp)
        · exact h
    | _ =>
        have hsame : ∀ s' : State, s'.application = s.application → ClientsOnly cfg s' := by
          intro s' hs'
          unfold ClientsOnly
          rw [hs']
          exact h
        refine hsame _ ?_
        simp only [State.change, State.receiveMpiServerRequest, State.writeServerMessage,
          State.readServerMessage, State.forwardServerMessage, State.receiveMpiServerReply,
          State.exitLoop, State.startCleanup, State.sendCloseLink, State.receiveCloseLink,
          State.skipCloseLink, State.startDisconnecting, State.disconnectGateway,
          State.receiveMessage, State.runJob, State.enqueueReply, State.returnFromDelivery,
          State.clusterDone, State.dequeue, State.sendMessage, State.closeSocket, State.goTo]
        repeat' split
        all_goals rfl
  · exact h

theorem clientsOnly_start : ClientsOnly cfg (start cfg) := by
  intro pid hphase
  simp only [start] at hphase
  split at hphase
  · rename_i hmem
    exact Server.mem_worldMembers.mp hmem
  · exact absurd rfl hphase

/-! ### Replies that are on their way -/

/-- The replies that a job sends as they are. -/
def told : Job → List Reply
  | .tell replies => replies
  | _ => []

/-- The replies that the thread has yet to enqueue. -/
def Receiver.left : Receiver → List Reply
  | .working _ jobs replies => replies ++ jobs.flatMap told
  | _ => []

/-- A reply for `p` is on its way. -/
inductive State.Comes (cfg : Server.Config) (s : State) (p : Pid) : Prop where
  | left {k : Nat} {m : Reply} (hk : k < cfg.numberOfClusters) (hm : m ∈ (s.receiver k).left)
      (hp : m.destination = p)
  | incoming {m : Reply} (hm : m ∈ s.incoming (getClusterRank p)) (hp : m.destination = p)
  | held {m : Reply} (hm : m ∈ (s.sender (getClusterRank p)).held) (hp : m.destination = p)
  | coming {m : Reply} (hm : m ∈ s.coming (getClusterRank p)) (hp : m.destination = p)
  | replies (hreplies : s.replies p ≠ [])

/-- The process or gateway `p` waits for `FINALIZE_REPLY`. -/
def State.Waits (cfg : Server.Config) (s : State) (p : Pid) : Prop :=
  s.application p = .finalizing ∨
    ∃ k < cfg.numberOfClusters, p ∈ gateways cfg k ∧ s.gateway p = .loop false

/-- **Who waits is told**, when the communicator of the world is gone. -/
def Told (cfg : Server.Config) (s : State) : Prop :=
  s.communicators[0]? = some none → ∀ p, s.Waits cfg p → s.Comes cfg p

/-- Nothing has gone. -/
theorem State.Comes.mono (h : s.Comes cfg p)
    (hreceiver : ∀ k, ∀ m ∈ (s.receiver k).left, m ∈ (s'.receiver k).left)
    (hincoming : ∀ k, ∀ m ∈ s.incoming k, m ∈ s'.incoming k)
    (hheld : ∀ k, ∀ m ∈ (s.sender k).held, m ∈ (s'.sender k).held)
    (hcoming : ∀ k, ∀ m ∈ s.coming k, m ∈ s'.coming k)
    (hreplies : s.replies p ≠ [] → s'.replies p ≠ []) : s'.Comes cfg p := by
  cases h with
  | left hk hm hp => exact .left hk (hreceiver _ _ hm) hp
  | incoming hm hp => exact .incoming (hincoming _ _ hm) hp
  | held hm hp => exact .held (hheld _ _ hm) hp
  | coming hm hp => exact .coming (hcoming _ _ hm) hp
  | replies hne => exact .replies (hreplies hne)

/-- The step is about something else. -/
theorem State.Comes.congr (h : s.Comes cfg p) (hreceiver : s'.receiver = s.receiver)
    (hincoming : s'.incoming = s.incoming) (hsender : s'.sender = s.sender)
    (hcoming : s'.coming = s.coming) (hreplies : s'.replies p = s.replies p) :
    s'.Comes cfg p := by
  refine h.mono ?_ ?_ ?_ ?_ ?_
  · simp only [hreceiver, imp_self, implies_true]
  · simp only [hincoming, imp_self, implies_true]
  · simp only [hsender, imp_self, implies_true]
  · simp only [hcoming, imp_self, implies_true]
  · rw [hreplies]
    exact fun hne => hne

/-- A gateway behind its main loop does not wait. -/
theorem waits_goTo (place : Place) (hplace : place ≠ .loop false)
    (h : (s.goTo g place).Waits cfg p) : s.Waits cfg p := by
  refine h.imp_right fun hgateway => ?_
  obtain ⟨k, hk, hp, hloop⟩ := hgateway
  refine ⟨k, hk, hp, ?_⟩
  simp only [State.goTo] at hloop
  by_cases heq : p = g
  · subst heq
    rw [Function.update_self] at hloop
    exact absurd hloop hplace
  · rwa [Function.update_of_ne heq] at hloop

theorem Told.goTo (h : Told cfg s) {place : Place} (hplace : place ≠ .loop false) :
    Told cfg (s.goTo g place) := fun hfreed p hwaits =>
  (h hfreed p (waits_goTo place hplace hwaits)).congr rfl rfl rfl rfl rfl

/-- From then on `FINALIZE` is carried out. -/
theorem Progress.after_of_freed (h : Progress cfg s) (hfreed : s.communicators[0]? = some none) :
    ∃ k₀ rest, After cfg s k₀ rest := by
  refine h.resolve_left fun h => ?_
  obtain ⟨c, hc, _⟩ := h.server.world
  rw [hfreed] at hc
  cases hc

/-- A gateway is no application process. -/
theorem ClientsOnly.application_gateway (h : ClientsOnly cfg s) (hk : k < cfg.numberOfClusters)
    (hg : g ∈ gateways cfg k) : s.application g = .finished := by
  by_contra hne
  exact not_isApplication_gateway hk hg (h g hne)

/-- A process that has received a reply does not wait. -/
theorem not_waits_of_replied (hclients : ClientsOnly cfg s) (hpid : s.application pid ≠ .finished)
    {phase : Phase} (hphase : phase ≠ .finalizing) {replies : Pid → List Reply} :
    ¬ State.Waits cfg { s with
      application := Function.update s.application pid phase
      replies := replies } pid := by
  rintro (hfinal | ⟨k, hk, hg, _⟩)
  · simp only [Function.update_self] at hfinal
    exact hphase hfinal
  · exact hpid (hclients.application_gateway hk hg)

theorem Told.receiveServerMessage (h : Told cfg s) (hclients : ClientsOnly cfg s) :
    Told cfg (s.receiveServerMessage pid) := by
  have hgo : ∀ {phase : Phase} {rest : List Reply}, s.application pid ≠ .finished →
      phase ≠ .finalizing → Told cfg { s with
        application := Function.update s.application pid phase
        replies := Function.update s.replies pid rest } := by
    intro phase rest hpid hphase hfreed p hwaits
    by_cases heq : p = pid
    · subst heq
      exact absurd hwaits (not_waits_of_replied hclients hpid hphase)
    · have hbefore : s.Waits cfg p := by
        simpa only [State.Waits, Function.update_of_ne heq] using hwaits
      exact (h hfreed p hbefore).congr rfl rfl rfl rfl (Function.update_of_ne heq _ _)
  unfold State.receiveServerMessage
  split
  · rename_i hphase
    exact hgo (by rw [hphase]; simp) (by simp)
  · rename_i hphase
    exact hgo (by rw [hphase]; simp) (by simp)
  · exact h

theorem Told.readServerMessage (h : Told cfg s) : Told cfg (s.readServerMessage cfg k) := by
  unfold State.readServerMessage
  split
  · split
    · rename_i m rest hlink
      intro hfreed p hwaits
      refine (h hfreed p hwaits).congr rfl rfl rfl (funext fun j => ?_) rfl
      simp only [State.coming]
      by_cases heq : j = k
      · subst heq
        simp [hlink, ToMaster.reply?]
      · simp [push_apply, heq]
    · exact h
  · exact h

theorem Told.forwardServerMessage (h : Told cfg s) (hclients : ClientsOnly cfg s)
    (hk : k < cfg.numberOfClusters) : Told cfg (s.forwardServerMessage cfg k) := by
  unfold State.forwardServerMessage
  split
  · split
    · exact h
    · rename_i m rest hqueue
      -- what is left in the queue
      have hleft : ∀ j, ∀ m' ∈ s.coming j, m' ≠ m → m' ∈ Function.update s.serverQueueIn k rest j ++
          (s.toMaster j).filterMap ToMaster.reply? := by
        intro j m' hm' hne
        by_cases heq : j = k
        · subst heq
          rw [State.coming, hqueue, List.cons_append, List.mem_cons] at hm'
          rw [Function.update_self]
          exact hm'.resolve_left hne
        · rw [Function.update_of_ne heq]
          exact hm'
      split
      · rename_i hmaster
        split
        · intro hfreed p hwaits
          have hnot : p ≠ master cfg k := by
            rintro rfl
            rcases hwaits with hfinal | ⟨_, _, _, hloop⟩
            · have hdone := hclients.application_gateway hk (master_mem k)
              rw [hdone] at hfinal
              cases hfinal
            · simp only [Function.update_self] at hloop
              cases hloop
          have hcomes := h hfreed p (waits_goTo (.loop true) (by simp) hwaits)
          cases hcomes with
          | left hk hm hp => exact .left hk hm hp
          | incoming hm hp => exact .incoming hm hp
          | held hm hp => exact .held hm hp
          | coming hm hp =>
              refine .coming (hleft _ _ hm ?_) hp
              rintro rfl
              exact hnot (hp.symm.trans hmaster)
          | replies hne => exact .replies hne
        · exact h.goTo (by simp)
      · split
        · intro hfreed p hwaits
          have hpush : s.replies p ≠ [] → push s.replies m.destination [m] p ≠ [] := by
            intro hne
            rw [push_apply]
            simp [hne]
          cases h hfreed p hwaits with
          | left hk hm hp => exact .left hk hm hp
          | incoming hm hp => exact .incoming hm hp
          | held hm hp => exact .held hm hp
          | coming hm hp =>
              rename_i m'
              by_cases heq : m' = m
              · subst heq
                refine .replies ?_
                simp only [← hp, push_self]
                simp
              · exact .coming (hleft _ _ hm heq) hp
          | replies hne => exact .replies (hpush hne)
        · exact h.goTo (by simp)
  · exact h

theorem Told.receiveMpiServerReply (h : Told cfg s) (hclients : ClientsOnly cfg s)
    (hk : k < cfg.numberOfClusters) (hg : g ∈ gateways cfg k) :
    Told cfg (s.receiveMpiServerReply g) := by
  unfold State.receiveMpiServerReply
  split
  · split
    · exact h
    · split
      · intro hfreed p hwaits
        have hnot : p ≠ g := by
          rintro rfl
          rcases hwaits with hfinal | ⟨_, _, _, hloop⟩
          · have hdone := hclients.application_gateway hk hg
            rw [hdone] at hfinal
            cases hfinal
          · simp only [Function.update_self] at hloop
            cases hloop
        exact (h hfreed p (waits_goTo (.loop true) (by simp) hwaits)).congr rfl rfl rfl
          rfl (Function.update_of_ne hnot _ _)
      · exact h.goTo (by simp)
  · exact h

theorem Told.receiveCloseLink (h : Told cfg s)
    (hanswer : s.gateway (master cfg k) = .asked →
      ∀ x rest, s.toMaster k = x :: rest → x = .closeLink) :
    Told cfg (s.receiveCloseLink cfg k) := by
  unfold State.receiveCloseLink
  split
  · rename_i hplace
    split
    · exact h
    · rename_i x rest hlink
      intro hfreed p hwaits
      refine (h hfreed p (waits_goTo .gatewayBarrier (by simp) hwaits)).congr rfl rfl
        rfl (funext fun j => ?_) rfl
      simp only [State.coming]
      by_cases heq : j = k
      · subst heq
        obtain rfl := hanswer hplace x rest hlink
        rw [Function.update_self, hlink, List.filterMap_cons_none rfl]
      · rw [Function.update_of_ne heq]
  · exact h

/-- No request brings the communicator of the world back. -/
theorem freed_of_admitRequest {server : Server.State} {req : CommunicatorRequest}
    (h : (Server.admitRequest cfg order server req).1[0]? = some none) :
    server[0]? = some none := by
  have hset : ∀ {n : Nat} {c : Server.Communicator}, (server.set n (some c))[0]? = some none →
      server[0]? = some none := by
    intro n c hfreed
    by_cases hn : n = 0
    · subst hn
      have hlt : 0 < (server.set 0 (some c)).length := (List.getElem?_eq_some_iff.mp hfreed).1
      rw [List.length_set] at hlt
      rw [List.getElem?_set_self hlt] at hfreed
      cases hfreed
    · rwa [List.getElem?_set_ne hn] at hfreed
  rcases @Server.admitRequest_cases cfg order server req with
    hsame | ⟨c, _, _, ⟨_, hentry⟩ | ⟨_, hentry⟩⟩
  · rwa [hsame] at h
  · rw [hentry] at h
    exact hset h
  · rw [hentry] at h
    exact hset h

/-- A thread goes on, and has no less to say. -/
theorem Told.receive (h : Told cfg s) {receiver : Receiver}
    (hleft : ∀ m ∈ (s.receiver k).left, m ∈ receiver.left) :
    Told cfg { s with receiver := Function.update s.receiver k receiver } := by
  intro hfreed p hwaits
  refine (h hfreed p hwaits).mono (fun j m hm => ?_) (fun _ _ hm => hm) (fun _ _ hm => hm)
    (fun _ _ hm => hm) fun hne => hne
  by_cases heq : j = k
  · subst heq
    simp only [Function.update_self]
    exact hleft m hm
  · simpa only [Function.update_of_ne heq] using hm

theorem Told.receiveMessage (h : Told cfg s) : Told cfg (s.receiveMessage cfg order k) := by
  unfold State.receiveMessage
  split
  · rename_i req rest hreceiver hlink
    split
    · exact h
    · intro hfreed p hwaits
      have hread : Told cfg { s with
          receiver := Function.update s.receiver k
            (.working req (Server.admitRequest cfg order s.communicators req).2 []) } :=
        h.receive (by rw [hreceiver]; simp [Receiver.left])
      exact (hread (freed_of_admitRequest hfreed) p hwaits).congr rfl rfl rfl rfl rfl
  · rename_i rest hreceiver hlink
    have hgone : Told cfg { s with receiver := Function.update s.receiver k .finishing } :=
      h.receive (by rw [hreceiver]; simp [Receiver.left])
    exact fun hfreed p hwaits => (hgone hfreed p hwaits).congr rfl rfl rfl rfl rfl
  · exact h

/-- **The communicator of the world is freed**, and a thread has replies for all who wait. -/
theorem told_of_free (hclients : ClientsOnly cfg s) (hk : k < cfg.numberOfClusters)
    {req : CommunicatorRequest} {communicators : Server.State} :
    Told cfg { s with
      communicators := communicators
      receiver := Function.update s.receiver k
        (.working req [.tell (finalizeReplies cfg)] []) } := by
  intro _ p hwaits
  have hmem : p ∈ Server.worldMembers cfg ++ cfg.gateways := by
    rcases hwaits with hfinal | ⟨j, hj, hp, _⟩
    · refine List.mem_append_left _ (Server.mem_worldMembers.mpr (hclients p ?_))
      have hphase : s.application p = .finalizing := hfinal
      rw [hphase]
      simp
    · refine List.mem_append_right _ ?_
      rw [config_gateways_eq]
      exact List.mem_flatMap.mpr ⟨j, List.mem_range.mpr hj, hp⟩
  refine .left (m := ⟨p, .finalize⟩) hk ?_ rfl
  simp only [Function.update_self, Receiver.left, List.flatMap_cons, List.flatMap_nil, told,
    List.append_nil, List.nil_append]
  exact List.mem_map_of_mem hmem

theorem Told.runJob (h : Told cfg s) (hprogress : Progress cfg s) (hclients : ClientsOnly cfg s)
    (hk : k < cfg.numberOfClusters) : Told cfg (s.runJob cfg k) := by
  unfold State.runJob
  split
  · rename_i req job jobs hreceiver
    rcases hprogress with hbefore | ⟨k₀, rest, hafter⟩
    · -- no job of a call frees the communicator of the world
      have hworld : ∀ {server : Server.State} {replies : List Reply},
          job.run cfg s.communicators = some (server, replies) → server[0]? ≠ some none := by
        intro server replies hrun hfreed
        have hworking := hbefore.server.receiver k req _ _ hreceiver
        have hsame := (hbefore.server.run (hworking.jobs job List.mem_cons_self) hrun).1
        obtain ⟨c, hc, _⟩ := hbefore.server.world
        rw [← hsame, hfreed] at hc
        cases hc
      split
      · intro hfreed
        obtain ⟨c, hc, _⟩ := hbefore.server.world
        rw [hfreed] at hc
        cases hc
      · rename_i hrun
        exact fun hfreed => absurd hfreed (hworld hrun)
    · obtain rfl : k = k₀ := by
        by_contra hne
        have hidle := hafter.idle k hne
        rw [hreceiver] at hidle
        cases hidle
      have htelling := hafter.telling
      rw [hreceiver] at htelling
      cases htelling with
      | free _ => exact told_of_free hclients hk
      | tell _ =>
          simp only [Job.run, enqueueReplies_finalizeReplies]
          exact h.receive (by rw [hreceiver]; simp [Receiver.left, told])
      | told hidle => cases hidle
  · exact h

theorem Told.enqueueReply (h : Told cfg s) : Told cfg (s.enqueueReply k) := by
  unfold State.enqueueReply
  split
  · rename_i req jobs m replies hreceiver
    intro hfreed p hwaits
    have hpush : ∀ j, ∀ m' ∈ s.incoming j,
        m' ∈ push s.incoming (getClusterRank m.destination) [m] j :=
      fun j m' hm' => mem_push.mpr (Or.inl hm')
    cases h hfreed p hwaits with
    | @left j m' hj hm hp =>
        by_cases heq : j = k
        · subst heq
          rw [hreceiver, Receiver.left, List.cons_append, List.mem_cons] at hm
          rcases hm with rfl | hm
          · exact .incoming (mem_push.mpr (Or.inr ⟨by rw [hp], List.mem_singleton_self _⟩)) hp
          · refine .left (k := j) hj ?_ hp
            simp only [Function.update_self]
            exact hm
        · refine .left (k := j) hj ?_ hp
          simpa only [Function.update_of_ne heq] using hm
    | incoming hm hp => exact .incoming (hpush _ _ hm) hp
    | held hm hp => exact .held hm hp
    | coming hm hp => exact .coming hm hp
    | replies hne => exact .replies hne
  · exact h

theorem Told.dequeue (h : Told cfg s) : Told cfg (s.dequeue k) := by
  unfold State.dequeue
  split
  · rename_i m rest hsender hincoming
    intro hfreed p hwaits
    cases h hfreed p hwaits with
    | left hk hm hp => exact .left hk hm hp
    | incoming hm hp =>
        rename_i m'
        by_cases heq : getClusterRank p = k
        · rw [heq, hincoming, List.mem_cons] at hm
          rcases hm with rfl | hm
          · refine .held (m := m') ?_ hp
            simp only [heq, Function.update_self, Sender.held, List.mem_singleton]
          · refine .incoming ?_ hp
            simpa only [heq, Function.update_self] using hm
        · refine .incoming ?_ hp
          simpa only [Function.update_of_ne heq] using hm
    | held hm hp =>
        refine .held ?_ hp
        by_cases heq : getClusterRank p = k
        · rw [heq, hsender] at hm
          cases hm
        · simpa only [Function.update_of_ne heq] using hm
    | coming hm hp => exact .coming hm hp
    | replies hne => exact .replies hne
  · rename_i hsender hincoming
    split
    · intro hfreed p hwaits
      refine (h hfreed p hwaits).mono (fun _ _ hm => hm) (fun _ _ hm => hm) (fun j m hm => ?_)
        (fun _ _ hm => hm) fun hne => hne
      by_cases heq : j = k
      · rw [heq, hsender] at hm
        cases hm
      · simpa only [Function.update_of_ne heq] using hm
    · exact h
  · exact h

theorem Told.sendMessage (h : Told cfg s) : Told cfg (s.sendMessage k) := by
  unfold State.sendMessage
  split
  · rename_i m hsender
    intro hfreed p hwaits
    have hcoming : ∀ j, ∀ m' ∈ s.coming j, m' ∈ s.serverQueueIn j ++
        (push s.toMaster k [.reply m] j).filterMap ToMaster.reply? := by
      intro j m' hm'
      rw [push_apply, List.filterMap_append, ← List.append_assoc]
      exact List.mem_append_left _ hm'
    cases h hfreed p hwaits with
    | left hk hm hp => exact .left hk hm hp
    | incoming hm hp => exact .incoming hm hp
    | held hm hp =>
        by_cases heq : getClusterRank p = k
        · rw [heq, hsender, Sender.held, List.mem_singleton] at hm
          subst hm
          refine .coming ?_ hp
          simp [State.coming, heq, ToMaster.reply?]
        · refine .held ?_ hp
          simpa only [Function.update_of_ne heq] using hm
    | coming hm hp => exact .coming (hcoming _ _ hm) hp
    | replies hne => exact .replies hne
  · exact h

theorem Told.closeSocket (h : Told cfg s) : Told cfg (s.closeSocket cfg k) := by
  unfold State.closeSocket
  split
  · rename_i hsender
    split
    · exact h
    · intro hfreed p hwaits
      refine (h hfreed p hwaits).mono (fun _ _ hm => hm) (fun _ _ hm => hm) (fun j m hm => ?_)
        (fun j m hm => ?_) fun hne => hne
      · by_cases heq : j = k
        · rw [heq, hsender] at hm
          cases hm
        · simpa only [Function.update_of_ne heq] using hm
      · simp only [State.coming, push_apply, List.filterMap_append, ← List.append_assoc]
        exact List.mem_append_left _ hm
  · exact h

theorem told_start : Told cfg (start cfg) := by
  intro hfreed
  simp only [start, Server.initCommWorld_eq, Option.getD_some] at hfreed
  cases hfreed

/-- **Every event keeps on its way what is waited for.** -/
theorem Told.step (h : Told cfg s) (hclients : ClientsOnly cfg s) (hprogress : Progress cfg s)
    (hanswer : ∀ k < cfg.numberOfClusters, s.gateway (master cfg k) = .asked →
      ∀ x rest, s.toMaster k = x :: rest → x = .closeLink) (e : Event) :
    Told cfg (s.step cfg order e) := by
  have hcongr : ∀ s' : State, s'.communicators = s.communicators → (∀ p, s'.Waits cfg p →
      s.Waits cfg p) → s'.receiver = s.receiver → s'.incoming = s.incoming →
      s'.sender = s.sender → s'.coming = s.coming → s'.replies = s.replies → Told cfg s' := by
    intro s' hserver hwaits hreceiver hincoming hsender hcoming hreplies hfreed p hp
    rw [hserver] at hfreed
    exact (h hfreed p (hwaits p hp)).congr hreceiver hincoming hsender hcoming
      (congrFun hreplies p)
  unfold State.step
  split
  · rename_i hpossible
    cases e with
    | call req =>
        simp only [State.change, State.call]
        split
        · refine hcongr _ rfl (fun p => Or.imp_left fun hfinal => ?_) rfl rfl rfl rfl rfl
          by_cases heq : p = req.source
          · subst heq
            simp only [Function.update_self] at hfinal
            cases hfinal
          · simpa only [Function.update_of_ne heq] using hfinal
        · exact h
    | messagingFinalize pid =>
        simp only [State.change, State.messagingFinalize]
        split
        · rename_i hrunning
          -- nobody runs any more
          intro hfreed
          obtain ⟨_, _, hafter⟩ := hprogress.after_of_freed hfreed
          have hearly := hafter.quiet.early pid
          rw [hrunning] at hearly
          cases hearly
        · exact h
    | receiveServerMessage pid => exact h.receiveServerMessage hclients
    | finish k pid =>
        simp only [State.change, State.finish]
        split
        · refine hcongr _ rfl (fun p => Or.imp_left fun hfinal => ?_) rfl rfl rfl rfl rfl
          by_cases heq : p = pid
          · subst heq
            simp only [Function.update_self] at hfinal
            cases hfinal
          · simpa only [Function.update_of_ne heq] using hfinal
        · exact h
    | receiveMpiServerRequest k pid =>
        simp only [State.change, State.receiveMpiServerRequest]
        split
        · split
          · exact h
          · exact hcongr _ rfl (fun _ hp => hp) rfl rfl rfl rfl rfl
        · exact h
    | writeServerMessage k =>
        simp only [State.change, State.writeServerMessage]
        split
        · split
          · exact h
          · exact hcongr _ rfl (fun _ hp => hp) rfl rfl rfl rfl rfl
        · exact h
    | readServerMessage k => exact h.readServerMessage
    | forwardServerMessage k => exact h.forwardServerMessage hclients hpossible
    | receiveMpiServerReply k g =>
        exact h.receiveMpiServerReply hclients hpossible.1 hpossible.2
    | exitLoop k g =>
        simp only [State.change, State.exitLoop]
        split
        · exact h.goTo (by simp)
        · exact h
    | startCleanup k g =>
        simp only [State.change, State.startCleanup]
        split
        · exact h.goTo (by simp)
        · exact h
    | sendCloseLink k =>
        simp only [State.change, State.sendCloseLink]
        split
        · exact hcongr _ rfl (fun p hp => waits_goTo .asked (by simp) hp) rfl rfl rfl
            rfl rfl
        · exact h
    | receiveCloseLink k => exact h.receiveCloseLink (hanswer k hpossible)
    | skipCloseLink k g =>
        simp only [State.change, State.skipCloseLink]
        split
        · exact h.goTo (by simp)
        · exact h
    | startDisconnecting k g =>
        simp only [State.change, State.startDisconnecting]
        split
        · exact h.goTo (by simp)
        · exact h
    | disconnectGateway k g =>
        simp only [State.change, State.disconnectGateway]
        split
        · split
          · exact h.goTo (by simp)
          · exact h
        · exact h
    | receiveMessage k => exact h.receiveMessage
    | runJob k => exact h.runJob hprogress hclients hpossible
    | enqueueReply k => exact h.enqueueReply
    | returnFromDelivery k =>
        simp only [State.change, State.returnFromDelivery]
        split
        · rename_i hreceiver
          exact h.receive (by rw [hreceiver]; simp [Receiver.left])
        · exact h
    | clusterDone k =>
        simp only [State.change, State.clusterDone]
        split
        · rename_i hreceiver
          have hgone : Told cfg { s with receiver := Function.update s.receiver k .stopped } :=
            h.receive (by rw [hreceiver]; simp [Receiver.left])
          exact fun hfreed p hwaits => (hgone hfreed p hwaits).congr rfl rfl rfl rfl rfl
        · exact h
    | dequeue k => exact h.dequeue
    | sendMessage k => exact h.sendMessage
    | closeSocket k => exact h.closeSocket
  · exact h

end Closing

end EsalsaMpi
