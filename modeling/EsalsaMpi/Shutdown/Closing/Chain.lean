import EsalsaMpi.Shutdown.Closing.Jobs

/-!
# The chain of the closing

A gateway that disconnects has met its master gateway in a barrier, which has been answered by
the server, which has counted all clusters, each of which has asked, with its processes behind
their barrier and its gateways behind their main loops.  `Chain` has one field for each of these
links, and every event keeps it (`Chain.step`), provided that what a master gateway takes for the
answer is the answer.
-/

namespace EsalsaMpi

namespace Closing

open Server (CommunicatorRequest Reply Job)
open Queues

/-- The thread has received `CLOSE_LINK`. -/
def Receiver.hasFinished : Receiver → Bool
  | .finishing | .stopped => true
  | _ => false

/-- The cluster of the thread counts as done. -/
def Receiver.hasStopped : Receiver → Bool
  | .stopped => true
  | _ => false

/-- The thread has left its loop. -/
def Sender.hasLeft : Sender → Bool
  | .closing | .closed => true
  | _ => false

/-- The thread has written the answer. -/
def Sender.hasClosed : Sender → Bool
  | .closed => true
  | _ => false

variable {cfg : Server.Config} {order : Server.HashOrder} {s : State} {k : Nat} {g : Pid}

/-- The master gateway of a cluster, by its stage. -/
def State.masterStage (cfg : Server.Config) (s : State) (k : Nat) : Nat :=
  (s.gateway (master cfg k)).stage

/-- **The chain of the closing.** -/
structure Chain (cfg : Server.Config) (s : State) : Prop where
  world : ∀ k < cfg.numberOfClusters, ∀ g ∈ gateways cfg k, 2 ≤ (s.gateway g).stage →
    ∀ g' ∈ gateways cfg k, 1 ≤ (s.gateway g').stage
  link : ∀ k < cfg.numberOfClusters, .closeLink ∈ s.toServer k → 3 ≤ s.masterStage cfg k
  receiver : ∀ k < cfg.numberOfClusters, (s.receiver k).hasFinished → 3 ≤ s.masterStage cfg k
  done : ∀ k < cfg.numberOfClusters, s.done k → (s.receiver k).hasFinished
  sender : ∀ k < cfg.numberOfClusters, (s.sender k).hasLeft → s.done k
  count : s.clustersDone =
    (List.range cfg.numberOfClusters).countP fun k => (s.receiver k).hasStopped
  closed : ∀ k < cfg.numberOfClusters, (s.sender k).hasClosed →
    cfg.numberOfClusters ≤ s.clustersDone
  answer : ∀ k < cfg.numberOfClusters, .closeLink ∈ s.toMaster k → (s.sender k).hasClosed
  answered : ∀ k < cfg.numberOfClusters, 4 ≤ s.masterStage cfg k → (s.sender k).hasClosed
  barrier : ∀ k < cfg.numberOfClusters, ∀ g ∈ gateways cfg k, 5 ≤ (s.gateway g).stage →
    4 ≤ s.masterStage cfg k

/-- If the count is complete, every thread has stopped. -/
theorem Chain.hasStopped (h : Chain cfg s) (hcount : cfg.numberOfClusters ≤ s.clustersDone) :
    ∀ k < cfg.numberOfClusters, (s.receiver k).hasStopped := by
  have hall : (List.range cfg.numberOfClusters).countP
      (fun k => (s.receiver k).hasStopped) = (List.range cfg.numberOfClusters).length := by
    apply le_antisymm List.countP_le_length
    rw [List.length_range, ← h.count]
    exact hcount
  intro k hk
  exact List.countP_eq_length.mp hall k (List.mem_range.mpr hk)

/-- If a cluster has been answered, all gateways have left their main loops. -/
theorem Chain.left_of_closed (h : Chain cfg s) (hk : k < cfg.numberOfClusters)
    (hclosed : (s.sender k).hasClosed) :
    ∀ k' < cfg.numberOfClusters, ∀ g ∈ gateways cfg k', 1 ≤ (s.gateway g).stage := by
  intro k' hk' g hg
  have hstopped := h.hasStopped (h.closed k hk hclosed) k' hk'
  have hfinished : (s.receiver k').hasFinished := by
    revert hstopped
    cases s.receiver k' <;> simp [Receiver.hasStopped, Receiver.hasFinished]
  have hasked := h.receiver k' hk' hfinished
  exact h.world k' hk' _ (master_mem k') (by unfold State.masterStage at hasked; omega) g hg

/-- **A gateway that disconnects** does so when all gateways have left their main loops. -/
theorem Chain.left_of_disconnecting (h : Chain cfg s) (hk : k < cfg.numberOfClusters)
    (hg : g ∈ gateways cfg k) (hstage : 5 ≤ (s.gateway g).stage) :
    ∀ k' < cfg.numberOfClusters, ∀ g' ∈ gateways cfg k', 1 ≤ (s.gateway g').stage :=
  h.left_of_closed hk (h.answered k hk (h.barrier k hk g hg hstage))

/-! ### The events -/

/-- A gateway goes on to another place, and no link of the chain is missing. -/
theorem Chain.goTo (h : Chain cfg s) (hk : k < cfg.numberOfClusters) (hg : g ∈ gateways cfg k)
    {place : Place} (hstage : (s.gateway g).stage ≤ place.stage)
    (hworld : 2 ≤ place.stage → 2 ≤ (s.gateway g).stage ∨
      ∀ g' ∈ gateways cfg k, 1 ≤ (s.gateway g').stage)
    (hanswered : g = master cfg k → 4 ≤ place.stage → 4 ≤ (s.gateway g).stage ∨
      (s.sender k).hasClosed)
    (hbarrier : 5 ≤ place.stage → 5 ≤ (s.gateway g).stage ∨ 4 ≤ s.masterStage cfg k) :
    Chain cfg (s.goTo g place) := by
  have hmono : ∀ g', (s.gateway g').stage ≤ ((s.goTo g place).gateway g').stage := by
    intro g'
    by_cases heq : g' = g
    · subst heq
      simpa [State.goTo] using hstage
    · simp [State.goTo, Function.update_of_ne heq]
  have hself : ((s.goTo g place).gateway g) = place := by simp [State.goTo]
  have hother : ∀ {g'}, g' ≠ g → (s.goTo g place).gateway g' = s.gateway g' := fun hne => by
    simp [State.goTo, Function.update_of_ne hne]
  have hmaster : ∀ k', s.masterStage cfg k' ≤ (s.goTo g place).masterStage cfg k' :=
    fun k' => hmono (master cfg k')
  refine
    { h with
      world := fun k' hk' g' hg' hle g'' hg'' => (?_ : 1 ≤ _).trans (hmono g'')
      link := fun k' hk' hlink => (h.link k' hk' hlink).trans (hmaster k')
      receiver := fun k' hk' hfinished => (h.receiver k' hk' hfinished).trans (hmaster k')
      answered := fun k' hk' hle => ?_
      barrier := fun k' hk' g' hg' hle => (?_ : 4 ≤ _).trans (hmaster k') }
  · by_cases heq : g' = g
    · subst heq
      obtain rfl := gateway_unique hk hk' hg hg'
      rw [hself] at hle
      rcases hworld hle with hle | hall
      · exact h.world k hk g' hg hle g'' hg''
      · exact hall g'' hg''
    · rw [hother heq] at hle
      exact h.world k' hk' g' hg' hle g'' hg''
  · by_cases heq : master cfg k' = g
    · obtain rfl := gateway_unique hk' hk (heq ▸ master_mem k') hg
      rw [State.masterStage, heq, hself] at hle
      rcases hanswered heq.symm hle with hle | hclosed
      · exact h.answered k' hk' (by rwa [State.masterStage, heq])
      · exact hclosed
    · rw [State.masterStage, hother heq] at hle
      exact h.answered k' hk' hle
  · by_cases heq : g' = g
    · subst heq
      obtain rfl := gateway_unique hk hk' hg hg'
      rw [hself] at hle
      rcases hbarrier hle with hle | hmaster
      · exact h.barrier k hk g' hg hle
      · exact hmaster
    · rw [hother heq] at hle
      exact h.barrier k' hk' g' hg' hle

/-- A gateway in its main loop stays there, or ends there. -/
theorem Chain.goTo_loop (h : Chain cfg s) (hk : k < cfg.numberOfClusters)
    (hg : g ∈ gateways cfg k) (hloop : (s.gateway g).inLoop) {place : Place}
    (hplace : place.stage = 0) : Chain cfg (s.goTo g place) := by
  have hstage : (s.gateway g).stage = 0 := by
    revert hloop
    cases s.gateway g <;> simp [Place.inLoop, Place.stage]
  apply h.goTo hk hg <;> omega

/-- A thread that has not finished goes on to another job. -/
theorem Chain.receive (h : Chain cfg s) {receiver : Receiver}
    (hbefore : (s.receiver k).hasFinished = false) (hafter : receiver.hasFinished = false) :
    Chain cfg { s with receiver := Function.update s.receiver k receiver } := by
  have hunstopped : ∀ r : Receiver, r.hasFinished = false → r.hasStopped = false := by
    intro r hr
    cases r <;> simp_all [Receiver.hasFinished, Receiver.hasStopped]
  have hfinished : ∀ k', (Function.update s.receiver k receiver k').hasFinished =
      (s.receiver k').hasFinished := by
    intro k'
    by_cases heq : k' = k
    · subst heq
      rw [Function.update_self, hafter, hbefore]
    · rw [Function.update_of_ne heq]
  have hstopped : ∀ k', (Function.update s.receiver k receiver k').hasStopped =
      (s.receiver k').hasStopped := by
    intro k'
    by_cases heq : k' = k
    · subst heq
      rw [Function.update_self, hunstopped _ hafter, hunstopped _ hbefore]
    · rw [Function.update_of_ne heq]
  exact
    { h with
      receiver := fun k' hk' hle => h.receiver k' hk' (hfinished k' ▸ hle)
      done := fun k' hk' hdone => (hfinished k').symm ▸ h.done k' hk' hdone
      count := by
        simp only [hstopped]
        exact h.count }

/-- A thread that has not answered goes on to send, or leaves its loop when it is done. -/
theorem Chain.send (h : Chain cfg s) {sender : Sender}
    (hbefore : (s.sender k).hasClosed = false) (hafter : sender.hasClosed = false)
    (hdone : sender.hasLeft → s.done k) :
    Chain cfg { s with sender := Function.update s.sender k sender } := by
  have hclosed : ∀ k', (Function.update s.sender k sender k').hasClosed =
      (s.sender k').hasClosed := by
    intro k'
    by_cases heq : k' = k
    · subst heq
      rw [Function.update_self, hafter, hbefore]
    · rw [Function.update_of_ne heq]
  refine
    { h with
      sender := fun k' hk' hleft => ?_
      closed := fun k' hk' hle => h.closed k' hk' (hclosed k' ▸ hle)
      answer := fun k' hk' hmem => (hclosed k').symm ▸ h.answer k' hk' hmem
      answered := fun k' hk' hle => (hclosed k').symm ▸ h.answered k' hk' hle }
  by_cases heq : k' = k
  · subst heq
    simp only [Function.update_self] at hleft
    exact hdone hleft
  · simp only [Function.update_of_ne heq] at hleft
    exact h.sender k' hk' hleft

theorem Chain.forwardServerMessage (h : Chain cfg s) (hk : k < cfg.numberOfClusters) :
    Chain cfg (s.forwardServerMessage cfg k) := by
  unfold State.forwardServerMessage
  split
  · rename_i hloop
    split
    · exact h
    · split
      · split
        · exact { h.goTo_loop hk (master_mem k) hloop (rfl : (Place.loop true).stage = 0) with }
        · exact h.goTo_loop hk (master_mem k) hloop rfl
      · split
        · exact { h with }
        · exact h.goTo_loop hk (master_mem k) hloop rfl
  · exact h

theorem Chain.receiveMpiServerReply (h : Chain cfg s) (hk : k < cfg.numberOfClusters)
    (hg : g ∈ gateways cfg k) : Chain cfg (s.receiveMpiServerReply g) := by
  unfold State.receiveMpiServerReply
  split
  · rename_i hloop
    split
    · exact h
    · split
      · exact { h.goTo_loop hk hg hloop (rfl : (Place.loop true).stage = 0) with }
      · exact h.goTo_loop hk hg hloop rfl
  · exact h

theorem Chain.exitLoop (h : Chain cfg s) (hk : k < cfg.numberOfClusters)
    (hg : g ∈ gateways cfg k) : Chain cfg (s.exitLoop g) := by
  unfold State.exitLoop
  split
  · rename_i hplace
    refine h.goTo hk hg ?_ (fun hle => ?_) (fun _ hle => ?_) fun hle => ?_
    · rw [hplace]
      exact Nat.zero_le 1
    · exact absurd hle (by decide)
    · exact absurd hle (by decide)
    · exact absurd hle (by decide)
  · exact h

/-- A gateway gets out of the barrier when all have come to it. -/
theorem Chain.startCleanup (h : Chain cfg s) (hk : k < cfg.numberOfClusters)
    (hg : g ∈ gateways cfg k) : Chain cfg (s.startCleanup cfg k g) := by
  unfold State.startCleanup
  split
  · rename_i hcomplete
    obtain ⟨hplace, hcomplete⟩ := hcomplete
    refine h.goTo hk hg ?_ (fun _ => Or.inr fun g' hg' => ?_) (fun _ hle => ?_) fun hle => ?_
    · rw [hplace]
      exact Nat.le_succ 1
    · have hgateways := (Bool.and_eq_true_iff.mp hcomplete).2
      exact of_decide_eq_true (List.all_eq_true.mp hgateways g' hg')
    · exact absurd hle (by decide)
    · exact absurd hle (by decide)
  · exact h

theorem Chain.sendCloseLink (h : Chain cfg s) (hk : k < cfg.numberOfClusters) :
    Chain cfg (s.sendCloseLink cfg k) := by
  unfold State.sendCloseLink
  split
  · rename_i hplace
    have hgone : Chain cfg (s.goTo (master cfg k) .asked) := by
      refine h.goTo hk (master_mem k) ?_ (fun _ => Or.inl ?_) (fun _ hle => ?_) fun hle => ?_
      · rw [hplace]
        exact Nat.le_succ 2
      · rw [hplace]
        exact le_rfl
      · exact absurd hle (by decide)
      · exact absurd hle (by decide)
    refine
      { hgone with
        link := fun k' hk' hlink => ?_ }
    rcases mem_push.mp hlink with hlink | ⟨rfl, _⟩
    · exact hgone.link k' hk' hlink
    · show 3 ≤ ((s.goTo (master cfg k') .asked).gateway (master cfg k')).stage
      simp [State.goTo, Place.stage]
  · exact h

/-- **The answer**: the server has counted all clusters. -/
theorem Chain.receiveCloseLink (h : Chain cfg s) (hk : k < cfg.numberOfClusters)
    (hanswer : s.gateway (master cfg k) = .asked → ∀ x rest, s.toMaster k = x :: rest →
      x = .closeLink) : Chain cfg (s.receiveCloseLink cfg k) := by
  unfold State.receiveCloseLink
  split
  · rename_i hplace
    split
    · exact h
    · rename_i x rest hlink
      obtain rfl := hanswer hplace x rest hlink
      have hclosed := h.answer k hk (by rw [hlink]; exact List.mem_cons_self)
      have hgone : Chain cfg (s.goTo (master cfg k) .gatewayBarrier) := by
        refine h.goTo hk (master_mem k) ?_ (fun _ => Or.inl ?_) (fun _ _ => Or.inr hclosed)
          fun hle => ?_
        · rw [hplace]
          exact Nat.le_succ 3
        · rw [hplace]
          exact Nat.le_succ 2
        · exact absurd hle (by decide)
      exact
        { hgone with
          answer := fun k' hk' hmem => hgone.answer k' hk' (mem_of_mem_update hlink hmem) }
  · exact h

theorem Chain.skipCloseLink (h : Chain cfg s) (hk : k < cfg.numberOfClusters)
    (hg : g ∈ gateways cfg k) : Chain cfg (s.skipCloseLink cfg k g) := by
  unfold State.skipCloseLink
  split
  · rename_i hother
    obtain ⟨hne, hplace⟩ := hother
    refine h.goTo hk hg ?_ (fun _ => Or.inl ?_) (fun heq => absurd heq hne) fun hle => ?_
    · rw [hplace]
      exact (by decide : 2 ≤ 4)
    · rw [hplace]
      exact le_rfl
    · exact absurd hle (by decide)
  · exact h

/-- A gateway gets out of the second barrier when its master gateway has come to it. -/
theorem Chain.startDisconnecting (h : Chain cfg s) (hk : k < cfg.numberOfClusters)
    (hg : g ∈ gateways cfg k) : Chain cfg (s.startDisconnecting cfg k g) := by
  unfold State.startDisconnecting
  split
  · rename_i hcomplete
    obtain ⟨hplace, hcomplete⟩ := hcomplete
    refine h.goTo hk hg ?_ (fun _ => Or.inl ?_) (fun _ _ => Or.inl ?_) fun _ => Or.inr ?_
    · rw [hplace]
      exact Nat.le_succ 4
    · rw [hplace]
      exact (by decide : 2 ≤ 4)
    · rw [hplace]
      exact le_rfl
    · exact of_decide_eq_true (List.all_eq_true.mp hcomplete _ (master_mem k))
  · exact h

theorem Chain.disconnectGateway (h : Chain cfg s) (hk : k < cfg.numberOfClusters)
    (hg : g ∈ gateways cfg k) : Chain cfg (s.disconnectGateway cfg g) := by
  unfold State.disconnectGateway
  split
  · rename_i index hplace
    split
    · have hstage : (s.gateway g).stage = 5 := by rw [hplace]; rfl
      refine h.goTo hk hg hstage.le (fun _ => Or.inl ?_) (fun _ _ => Or.inl ?_)
        fun _ => Or.inl hstage.ge
      · omega
      · omega
    · exact h
  · exact h

theorem Chain.receiveMessage (h : Chain cfg s) (hk : k < cfg.numberOfClusters) :
    Chain cfg (s.receiveMessage cfg order k) := by
  unfold State.receiveMessage
  split
  · rename_i req rest hreceiver hlink
    split
    · exact h
    · have hreceive : Chain cfg { s with
          receiver := Function.update s.receiver k
            (.working req (Server.admitRequest cfg order s.communicators req).2 []) } :=
        h.receive (by rw [hreceiver]; rfl) rfl
      exact
        { hreceive with
          link := fun k' hk' hmem => h.link k' hk' (mem_of_mem_update hlink hmem) }
  · rename_i rest hreceiver hlink
    have hunstopped : ∀ k', (Function.update s.receiver k .finishing k').hasStopped =
        (s.receiver k').hasStopped := by
      intro k'
      by_cases heq : k' = k
      · subst heq
        rw [Function.update_self, hreceiver]
        rfl
      · rw [Function.update_of_ne heq]
    refine
      { h with
        link := fun k' hk' hmem => h.link k' hk' (mem_of_mem_update hlink hmem)
        receiver := fun k' hk' hfinished => ?_
        done := fun k' hk' hdone => ?_
        sender := fun k' hk' hleft => ?_
        count := by
          simp only [hunstopped]
          exact h.count }
    · by_cases heq : k' = k
      · subst heq
        exact h.link k' hk' (by rw [hlink]; exact List.mem_cons_self)
      · simp only [Function.update_of_ne heq] at hfinished
        exact h.receiver k' hk' hfinished
    · by_cases heq : k' = k
      · subst heq
        simp [Receiver.hasFinished]
      · simp only [Function.update_of_ne heq] at hdone ⊢
        exact h.done k' hk' hdone
    · by_cases heq : k' = k
      · subst heq
        simp
      · simp only [Function.update_of_ne heq]
        exact h.sender k' hk' hleft
  · exact h

/-- A cluster is counted once. -/
theorem Chain.clusterDone (h : Chain cfg s) (hk : k < cfg.numberOfClusters) :
    Chain cfg (s.clusterDone k) := by
  unfold State.clusterDone
  split
  · rename_i hreceiver
    have hfinished : ∀ k', (Function.update s.receiver k .stopped k').hasFinished =
        (s.receiver k').hasFinished := by
      intro k'
      by_cases heq : k' = k
      · subst heq
        rw [Function.update_self, hreceiver]
        rfl
      · rw [Function.update_of_ne heq]
    have hcount : (List.range cfg.numberOfClusters).countP
        (fun k' => (Function.update s.receiver k .stopped k').hasStopped) =
          (List.range cfg.numberOfClusters).countP (fun k' => (s.receiver k').hasStopped) + 1 := by
      obtain ⟨before, after, hrange⟩ := List.append_of_mem (List.mem_range.mpr hk)
      have hnodup : (before ++ k :: after).Nodup := hrange ▸ List.nodup_range
      have hother : ∀ l : List Nat, k ∉ l →
          l.countP (fun k' => (Function.update s.receiver k .stopped k').hasStopped) =
            l.countP fun k' => (s.receiver k').hasStopped := by
        intro l hl
        apply List.countP_congr
        intro k' hk'
        rw [Function.update_of_ne]
        rintro rfl
        exact hl hk'
      rw [List.nodup_append, List.nodup_cons] at hnodup
      have hbefore : k ∉ before := fun hmem => hnodup.2.2 k hmem k List.mem_cons_self rfl
      rw [hrange, List.countP_append, List.countP_append, List.countP_cons, List.countP_cons,
        hother before hbefore, hother after hnodup.2.1.1, Function.update_self, hreceiver]
      simp [Receiver.hasStopped]
      omega
    exact
      { h with
        receiver := fun k' hk' hle => h.receiver k' hk' (hfinished k' ▸ hle)
        done := fun k' hk' hdone => (hfinished k').symm ▸ h.done k' hk' hdone
        count := by
          rw [hcount, ← h.count]
        closed := fun k' hk' hclosed => (h.closed k' hk' hclosed).trans (Nat.le_succ _) }
  · exact h

theorem Chain.dequeue (h : Chain cfg s) : Chain cfg (s.dequeue k) := by
  unfold State.dequeue
  split
  · rename_i m rest hsender _
    have hsend : Chain cfg { s with sender := Function.update s.sender k (.writing m) } :=
      h.send (by rw [hsender]; rfl) rfl fun hleft => absurd hleft Bool.false_ne_true
    exact { hsend with }
  · rename_i hsender _
    split
    · rename_i hdone
      exact h.send (by rw [hsender]; rfl) rfl fun _ => hdone
    · exact h
  · exact h

theorem Chain.sendMessage (h : Chain cfg s) : Chain cfg (s.sendMessage k) := by
  unfold State.sendMessage
  split
  · rename_i m hsender
    have hsend : Chain cfg { s with sender := Function.update s.sender k .sending } :=
      h.send (by rw [hsender]; rfl) rfl fun hleft => absurd hleft Bool.false_ne_true
    refine
      { hsend with
        answer := fun k' hk' hmem => ?_ }
    rcases mem_push.mp hmem with hmem | ⟨_, hmem⟩
    · exact hsend.answer k' hk' hmem
    · exact absurd (List.mem_singleton.mp hmem) (by simp)
  · exact h

theorem Chain.closeSocket (h : Chain cfg s) : Chain cfg (s.closeSocket cfg k) := by
  unfold State.closeSocket
  split
  · rename_i hsender
    split
    · exact h
    · rename_i hcount
      have hmono : ∀ k', (s.sender k').hasClosed →
          (Function.update s.sender k .closed k').hasClosed := by
        intro k' hclosed
        by_cases heq : k' = k
        · subst heq
          rw [Function.update_self]
          rfl
        · rwa [Function.update_of_ne heq]
      refine
        { h with
          sender := fun k' hk' hleft => ?_
          closed := fun k' hk' hclosed => not_lt.mp hcount
          answer := fun k' hk' hmem => ?_
          answered := fun k' hk' hle => hmono k' (h.answered k' hk' hle) }
      · by_cases heq : k' = k
        · subst heq
          exact h.sender k' hk' (by rw [hsender]; rfl)
        · simp only [Function.update_of_ne heq] at hleft
          exact h.sender k' hk' hleft
      · rcases mem_push.mp hmem with hmem | ⟨rfl, _⟩
        · exact hmono k' (h.answer k' hk' hmem)
        · simp [Sender.hasClosed]
  · exact h

/-- A thread that works goes on working, or back to reading. -/
theorem Chain.runJob (h : Chain cfg s) : Chain cfg (s.runJob cfg k) := by
  unfold State.runJob
  split
  · rename_i req job jobs hreceiver
    have hbefore : (s.receiver k).hasFinished = false := by rw [hreceiver]; rfl
    split
    · exact h.receive hbefore rfl
    · rename_i communicators replies _
      have hreceive : Chain cfg { s with
          receiver := Function.update s.receiver k (.working req jobs replies) } :=
        h.receive hbefore rfl
      exact { hreceive with }
  · exact h

theorem Chain.enqueueReply (h : Chain cfg s) : Chain cfg (s.enqueueReply k) := by
  unfold State.enqueueReply
  split
  · rename_i req jobs m replies hreceiver
    have hreceive : Chain cfg { s with
        receiver := Function.update s.receiver k (.working req jobs replies) } :=
      h.receive (by rw [hreceiver]; rfl) rfl
    exact { hreceive with }
  · exact h

theorem Chain.returnFromDelivery (h : Chain cfg s) : Chain cfg (s.returnFromDelivery k) := by
  unfold State.returnFromDelivery
  split
  · rename_i hreceiver
    exact h.receive (by rw [hreceiver]; rfl) rfl
  · exact h

theorem Chain.writeServerMessage (h : Chain cfg s) : Chain cfg (s.writeServerMessage cfg k) := by
  unfold State.writeServerMessage
  split
  · split
    · exact h
    · refine
        { h with
          link := fun k' hk' hmem => ?_ }
      rcases mem_push.mp hmem with hmem | ⟨_, hmem⟩
      · exact h.link k' hk' hmem
      · exact absurd (List.mem_singleton.mp hmem) (by simp)
  · exact h

theorem Chain.readServerMessage (h : Chain cfg s) : Chain cfg (s.readServerMessage cfg k) := by
  unfold State.readServerMessage
  split
  · split
    · rename_i hlink
      exact
        { h with
          answer := fun k' hk' hmem => h.answer k' hk' (mem_of_mem_update hlink hmem) }
    · exact h
  · exact h

/-- **Every event keeps the chain**, if what a master gateway receives is the answer. -/
theorem Chain.step (h : Chain cfg s)
    (hanswer : ∀ k < cfg.numberOfClusters, s.gateway (master cfg k) = .asked →
      ∀ x rest, s.toMaster k = x :: rest → x = .closeLink) (e : Event) :
    Chain cfg (s.step cfg order e) := by
  unfold State.step
  split
  · rename_i hpossible
    cases e with
    | call req =>
        simp only [State.change, State.call]
        split
        · exact { h with }
        · exact h
    | messagingFinalize pid =>
        simp only [State.change, State.messagingFinalize]
        split
        · exact { h with }
        · exact h
    | receiveServerMessage pid =>
        simp only [State.change, State.receiveServerMessage]
        split
        · exact { h with }
        · exact { h with }
        · exact h
    | finish k pid =>
        simp only [State.change, State.finish]
        split
        · exact { h with }
        · exact h
    | receiveMpiServerRequest k pid =>
        simp only [State.change, State.receiveMpiServerRequest]
        split
        · split
          · exact h
          · exact { h with }
        · exact h
    | writeServerMessage k => exact h.writeServerMessage
    | readServerMessage k => exact h.readServerMessage
    | forwardServerMessage k => exact h.forwardServerMessage hpossible
    | receiveMpiServerReply k g => exact h.receiveMpiServerReply hpossible.1 hpossible.2
    | exitLoop k g => exact h.exitLoop hpossible.1 hpossible.2
    | startCleanup k g => exact h.startCleanup hpossible.1 hpossible.2
    | sendCloseLink k => exact h.sendCloseLink hpossible
    | receiveCloseLink k => exact h.receiveCloseLink hpossible (hanswer k hpossible)
    | skipCloseLink k g => exact h.skipCloseLink hpossible.1 hpossible.2
    | startDisconnecting k g => exact h.startDisconnecting hpossible.1 hpossible.2
    | disconnectGateway k g => exact h.disconnectGateway hpossible.1 hpossible.2
    | receiveMessage k => exact h.receiveMessage hpossible
    | runJob k => exact h.runJob
    | enqueueReply k => exact h.enqueueReply
    | returnFromDelivery k => exact h.returnFromDelivery
    | clusterDone k => exact h.clusterDone hpossible
    | dequeue k => exact h.dequeue
    | sendMessage k => exact h.sendMessage
    | closeSocket k => exact h.closeSocket
  · exact h

theorem chain_start : Chain cfg (start cfg) where
  world _ _ _ _ hle := absurd hle (by simp [start, Place.stage])
  link _ _ hmem := absurd hmem List.not_mem_nil
  receiver _ _ hfinished := by cases hfinished
  done _ _ hdone := by cases hdone
  sender _ _ hleft := by cases hleft
  count := by
    simp [start, Receiver.hasStopped]
  closed _ _ hclosed := by cases hclosed
  answer _ _ hmem := absurd hmem List.not_mem_nil
  answered _ _ hle := absurd hle (by simp [State.masterStage, start, Place.stage])
  barrier _ _ _ _ hle := absurd hle (by simp [start, Place.stage])

end Closing

end EsalsaMpi
