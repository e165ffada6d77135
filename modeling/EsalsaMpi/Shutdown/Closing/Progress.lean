import EsalsaMpi.Shutdown.Closing.Finalizing

/-!
# Every event keeps the progress

The requests and the threads of the server, event by event: `Progress.step`.  Only the reading of
the last `FINALIZE` leads from `Before` to `After`.
-/

namespace EsalsaMpi

namespace Closing

open Server (CommunicatorRequest Reply Job)
open Queues

variable {cfg : Server.Config} {order : Server.HashOrder} {s : State} {k : Nat} {g pid : Pid}
  {req : CommunicatorRequest}

/-- What is not about requests and receiver threads. -/
theorem Progress.frame (h : Progress cfg s) (incoming : Nat → List Reply) (done : Nat → Bool)
    (sender : Nat → Sender) (clustersDone : Nat) (toMaster : Nat → List ToMaster)
    (gateway : Pid → Place) (replies : Pid → List Reply) (serverQueueIn : Nat → List Reply)
    (written : Nat → List ToMaster) :
    Progress cfg { s with
      incoming := incoming, done := done, sender := sender, clustersDone := clustersDone
      toMaster := toMaster, gateway := gateway, replies := replies
      serverQueueIn := serverQueueIn, written := written } := by
  rcases h with h | ⟨k₀, rest, h⟩
  · refine Or.inl ⟨{ h.requests with }, ?_, h.enqueued⟩
    exact h.server.clients rfl rfl fun q hearly hout => ⟨hearly, hout⟩
  · exact Or.inr ⟨k₀, rest, { h.quiet with }, h.telling, h.idle, h.last⟩

/-! ### The application -/

theorem isCall_ne_finalize {operation : Server.Operation} (h : isCall cfg operation) :
    operation ≠ .finalize := by
  rintro rfl
  cases h

theorem Progress.call (h : Progress cfg s) : Progress cfg (s.call cfg req) := by
  unfold State.call
  split
  · rename_i hguard
    obtain ⟨hrunning, hcall⟩ := hguard
    have hearly : (s.application req.source).early := by rw [hrunning]; rfl
    rcases h with h | ⟨k₀, rest, h⟩
    · have hne := isCall_ne_finalize hcall
      have hproper : Proper cfg req :=
        ⟨h.requests.early _ hearly, fun _ => hcall, fun hop => absurd hop hne⟩
      refine Or.inl ⟨h.requests.send hearly hproper rfl fun _ => hne, ?_, h.enqueued⟩
      refine h.server.clients rfl rfl fun q hq hout => ?_
      have hother : q ≠ req.source := by
        rintro rfl
        rw [hearly] at hq
        cases hq
      refine ⟨by simpa only [Function.update_of_ne hother] using hq, ?_⟩
      rw [outstanding_push, if_neg hother, hout]
      rfl
    · have hquiet := h.quiet.early req.source
      rw [hearly] at hquiet
      cases hquiet
  · exact h

theorem Progress.messagingFinalize (h : Progress cfg s) :
    Progress cfg (s.messagingFinalize cfg pid) := by
  unfold State.messagingFinalize
  split
  · rename_i hrunning
    have hearly : (s.application pid).early := by rw [hrunning]; rfl
    rcases h with h | ⟨k₀, rest, h⟩
    · have hproper := proper_finalizeRequest (h.requests.early _ hearly)
      refine Or.inl ⟨h.requests.send hearly hproper rfl
        fun hphase => absurd hphase Bool.false_ne_true, ?_, h.enqueued⟩
      refine h.server.clients rfl rfl fun q hq hout => ?_
      have hother : q ≠ pid := by
        rintro rfl
        rw [hearly] at hq
        cases hq
      refine ⟨by simpa only [Function.update_of_ne hother] using hq, ?_⟩
      rw [outstanding_push, if_neg hother, hout]
      rfl
    · have hquiet := h.quiet.early pid
      rw [hearly] at hquiet
      cases hquiet
  · exact h

/-- A process goes on, but not back before `messaging_finalize`. -/
theorem Progress.goOn (h : Progress cfg s) {phase : Phase} {replies : Pid → List Reply}
    (hphase : phase.early → (s.application pid).early) :
    Progress cfg { s with
      application := Function.update s.application pid phase
      replies := replies } := by
  have hlate : ∀ q, (s.application q).early = false →
      (Function.update s.application pid phase q).early = false := by
    intro q hq
    by_cases heq : q = pid
    · subst heq
      rw [Function.update_self]
      by_contra hearly
      rw [hphase (by simpa using hearly)] at hq
      cases hq
    · rwa [Function.update_of_ne heq]
  rcases h with h | ⟨k₀, rest, h⟩
  · refine Or.inl ⟨h.requests.goOn hphase, ?_, h.enqueued⟩
    exact h.server.clients rfl rfl fun q hq hout => ⟨hlate q hq, hout⟩
  · exact Or.inr ⟨k₀, rest, { h.quiet with early := fun q => hlate q (h.quiet.early q) },
      h.telling, h.idle, h.last⟩

theorem Progress.receiveServerMessage (h : Progress cfg s) :
    Progress cfg (s.receiveServerMessage pid) := by
  unfold State.receiveServerMessage
  split
  · rename_i hwaiting
    exact h.goOn fun _ => by rw [hwaiting]; rfl
  · exact h.goOn fun hphase => absurd hphase Bool.false_ne_true
  · exact h

theorem Progress.finish (h : Progress cfg s) : Progress cfg (s.finish cfg k pid) := by
  unfold State.finish
  split
  · exact h.goOn fun hphase => absurd hphase Bool.false_ne_true
  · exact h

/-! ### The way to the server -/

theorem Progress.receiveMpiServerRequest (h : Progress cfg s) :
    Progress cfg (s.receiveMpiServerRequest cfg k pid) := by
  rcases h with h | ⟨k₀, rest, h⟩
  · refine Or.inl ⟨h.requests.receiveMpiServerRequest, ?_, ?_⟩
    · unfold State.receiveMpiServerRequest
      split
      · rename_i hguard
        split
        · exact h.server
        · rename_i req rest hrequests
          have hsource := (h.requests.requests pid req (hrequests ▸ List.mem_cons_self)).1
          have hsame := outstanding_receiveMpiServerRequest hrequests hsource hguard.2
          exact h.server.clients rfl rfl fun q hq hout => ⟨hq, (congrFun hsame q).trans hout⟩
      · exact h.server
    · unfold State.receiveMpiServerRequest
      split
      · split
        · exact h.enqueued
        · exact h.enqueued
      · exact h.enqueued
  · refine Or.inr ⟨k₀, rest, ?_⟩
    unfold State.receiveMpiServerRequest
    rw [h.quiet.requests pid]
    split
    · exact h
    · exact h

theorem Progress.writeServerMessage (h : Progress cfg s) :
    Progress cfg (s.writeServerMessage cfg k) := by
  rcases h with h | ⟨k₀, rest, h⟩
  · refine Or.inl ⟨h.requests.writeServerMessage, ?_, ?_⟩
    · unfold State.writeServerMessage
      split
      · split
        · exact h.server
        · rename_i req rest hqueue
          have hsame := outstanding_writeServerMessage hqueue
          exact h.server.clients rfl rfl fun q hq hout => ⟨hq, (congrFun hsame q).trans hout⟩
      · exact h.server
    · unfold State.writeServerMessage
      split
      · split
        · exact h.enqueued
        · exact h.enqueued
      · exact h.enqueued
  · refine Or.inr ⟨k₀, rest, ?_⟩
    unfold State.writeServerMessage
    rw [h.quiet.queue k]
    split
    · exact h
    · exact h

/-- `CLOSE_LINK` is no request. -/
theorem outstanding_closeLink (s : State) (k : Nat) (gateway : Pid → Place) (q : Pid) :
    State.outstanding { s with
      gateway := gateway
      toServer := push s.toServer k [.closeLink] } q = s.outstanding q := by
  simp only [State.outstanding, push_apply, List.filterMap_append]
  split
  · simp [ToServer.ofSource]
  · simp

theorem Progress.sendCloseLink (h : Progress cfg s) : Progress cfg (s.sendCloseLink cfg k) := by
  unfold State.sendCloseLink
  split
  · have hlink : ∀ k' req, .request req ∈ push s.toServer k [.closeLink] k' →
        .request req ∈ s.toServer k' := by
      intro k' req hm
      rcases mem_push.mp hm with hm | ⟨-, hm⟩
      · exact hm
      · exact absurd (List.mem_singleton.mp hm) (by simp)
    rcases h with h | ⟨k₀, rest, h⟩
    · refine Or.inl ⟨{ h.requests with link := ?_, last := ?_, before := ?_ }, ?_, h.enqueued⟩
      · exact fun k' req hm => h.requests.link k' req (hlink k' req hm)
      · intro q m hm
        rw [outstanding_closeLink] at hm
        exact h.requests.last q m hm
      · intro q hq m hm
        rw [outstanding_closeLink] at hm
        exact h.requests.before q hq m hm
      · exact h.server.clients rfl rfl fun q hq hout =>
          ⟨hq, (outstanding_closeLink s k _ q).trans hout⟩
    · exact Or.inr ⟨k₀, rest,
        { h.quiet with link := fun k' req hm => h.quiet.link k' req (hlink k' req hm) },
        h.telling, h.idle, h.last⟩
  · exact h

/-! ### The threads of the server -/

/-- A thread that has nothing to do for requests goes on. -/
theorem Progress.goOnIdle (h : Progress cfg s) {receiver : Receiver}
    (hbefore : (s.receiver k).idle) (hafter : ∀ req jobs replies,
      receiver ≠ .working req jobs replies) :
    Progress cfg { s with receiver := Function.update s.receiver k receiver } := by
  have hidle : receiver.idle := by
    cases receiver with
    | working req jobs replies => exact absurd rfl (hafter req jobs replies)
    | reading => rfl
    | finishing => rfl
    | stopped => rfl
  rcases h with h | ⟨k₀, rest, h⟩
  · refine Or.inl ⟨{ h.requests with }, ?_, h.enqueued⟩
    exact h.server.work rfl h.server.communicator fun req jobs replies heq =>
      absurd heq (hafter req jobs replies)
  · refine Or.inr ⟨k₀, rest, { h.quiet with }, ?_, fun k' hk' => ?_, h.last⟩
    · by_cases hk : k₀ = k
      · subst hk
        obtain rfl := h.telling.eq_nil hbefore
        simp only [Function.update_self]
        exact .told hidle
      · simp only [Function.update_of_ne hk]
        exact h.telling
    · by_cases hk : k' = k
      · subst hk
        simp only [Function.update_self]
        exact hidle
      · simp only [Function.update_of_ne hk]
        exact h.idle k' hk'

/-- A thread has read `CLOSE_LINK`. -/
theorem Progress.popCloseLink (h : Progress cfg s) {rest : List ToServer}
    (hlink : s.toServer k = .closeLink :: rest) :
    Progress cfg { s with toServer := Function.update s.toServer k rest } := by
  have hsame : ∀ q, State.outstanding { s with toServer := Function.update s.toServer k rest } q =
      s.outstanding q := by
    intro q
    simp only [State.outstanding]
    by_cases hq : getClusterRank q = k
    · rw [hq, Function.update_self, hlink, List.filterMap_cons]
      rfl
    · rw [Function.update_of_ne hq]
  rcases h with h | ⟨k₀, told, h⟩
  · refine Or.inl ⟨{ h.requests with link := ?_, last := ?_, before := ?_ }, ?_, h.enqueued⟩
    · exact fun k' req hm => h.requests.link k' req (mem_of_mem_update hlink hm)
    · intro q m hm
      rw [hsame] at hm
      exact h.requests.last q m hm
    · intro q hq m hm
      rw [hsame] at hm
      exact h.requests.before q hq m hm
    · exact h.server.clients rfl rfl fun q hq hout => ⟨hq, (hsame q).trans hout⟩
  · exact Or.inr ⟨k₀, told,
      { h.quiet with link := fun k' req hm => h.quiet.link k' req (mem_of_mem_update hlink hm) },
      h.telling, h.idle, h.last⟩

/-- A thread reads a request, or `CLOSE_LINK`. -/
theorem Progress.receiveMessage (h : Progress cfg s) :
    Progress cfg (s.receiveMessage cfg order k) := by
  unfold State.receiveMessage
  split
  · rename_i req rest _ hlink
    split
    · exact h
    · rcases h with h | ⟨k₀, told, h⟩
      · exact h.read hlink
      · exact absurd (hlink ▸ List.mem_cons_self) (h.quiet.link k req)
  · rename_i rest hreading hlink
    have hidle : (s.receiver k).idle := by rw [hreading]; rfl
    have hgo : Progress cfg { s with receiver := Function.update s.receiver k .finishing } :=
      h.goOnIdle hidle (by simp)
    have hpop := hgo.popCloseLink hlink
    exact hpop.frame _ _ _ _ _ _ _ _ _
  · exact h

theorem Progress.clusterDone (h : Progress cfg s) : Progress cfg (s.clusterDone k) := by
  unfold State.clusterDone
  split
  · rename_i hfinishing
    have hgo : Progress cfg { s with receiver := Function.update s.receiver k .stopped } :=
      h.goOnIdle (by rw [hfinishing]; rfl) (by simp)
    exact hgo.frame _ _ _ _ _ _ _ _ _
  · exact h

theorem Progress.returnFromDelivery (h : Progress cfg s) :
    Progress cfg (s.returnFromDelivery k) := by
  unfold State.returnFromDelivery
  split
  · rename_i hreceiver
    exact h.goOnIdle (by rw [hreceiver]; rfl) (by simp)
  · exact h

theorem Progress.runJob (h : Progress cfg s) : Progress cfg (s.runJob cfg k) := by
  unfold State.runJob
  split
  · rename_i req job jobs hreceiver
    rcases h with h | ⟨k₀, rest, h⟩
    · have hworking := h.server.receiver k req _ _ hreceiver
      have hjobs : ∀ job' ∈ jobs, ForApplication cfg job' := fun job' hjob =>
        hworking.jobs job' (List.mem_cons_of_mem job hjob)
      have hop : req.operation ≠ .finalize := fun hop => by
        have hnone := (hworking.finalize hop).1
        cases hnone
      split
      · refine Or.inl ⟨{ h.requests with }, ?_, h.enqueued⟩
        refine h.server.work rfl h.server.communicator fun req' jobs' replies heq => ?_
        cases heq
        exact
          { hworking with
            finalize := fun _ => ⟨rfl, rfl⟩
            jobs := fun job hjob => absurd hjob List.not_mem_nil
            replies := fun m hm => absurd hm List.not_mem_nil }
      · rename_i communicators replies hrun
        obtain ⟨hworld, hcommunicator, hreplies⟩ :=
          h.server.run (hworking.jobs job List.mem_cons_self) hrun
        refine Or.inl ⟨{ h.requests with }, ?_, h.enqueued⟩
        refine h.server.work hworld hcommunicator fun req' jobs' replies' heq => ?_
        cases heq
        exact
          { hworking with
            finalize := fun hfinal => absurd hfinal hop
            jobs := hjobs
            replies := hreplies }
    · obtain rfl : k = k₀ := by
        by_contra hk
        have hidle := h.idle k hk
        rw [hreceiver] at hidle
        cases hidle
      have htelling := h.telling
      rw [hreceiver] at htelling
      have hgo : ∀ (communicators : Server.State) (receiver : Receiver),
          Telling cfg receiver rest → After cfg { s with
            communicators := communicators
            receiver := Function.update s.receiver k receiver } k rest := by
        intro communicators receiver htold
        refine ⟨{ h.quiet with }, ?_, fun k' hk' => ?_, h.last⟩
        · simpa only [Function.update_self] using htold
        · simpa only [Function.update_of_ne hk'] using h.idle k' hk'
      cases htelling with
      | free _ => exact Or.inr ⟨k, _, hgo _ _ (.tell req)⟩
      | tell _ =>
          simp only [Job.run, enqueueReplies_finalizeReplies]
          exact Or.inr ⟨k, _, hgo _ _ (.enqueue req _)⟩
      | told hidle => cases hidle
  · exact h

/-- **A reply is enqueued.** -/
theorem Progress.enqueueReply (h : Progress cfg s) : Progress cfg (s.enqueueReply k) := by
  unfold State.enqueueReply
  split
  · rename_i req jobs m replies hreceiver
    rcases h with h | ⟨k₀, rest, h⟩
    · have hworking := h.server.receiver k req _ _ hreceiver
      refine Or.inl ⟨{ h.requests with }, ?_, fun k' m' hm' => ?_⟩
      · have hwork := h.server.work (k := k) rfl h.server.communicator
          (fun req' jobs' replies' heq => ?_ :
            ∀ req' jobs' replies', Receiver.working req jobs replies =
              .working req' jobs' replies' → WorkingInv cfg s k req' jobs' replies')
        · exact hwork.clients rfl rfl fun q hq hout => ⟨hq, hout⟩
        · cases heq
          exact
            { hworking with
              finalize := fun hop => ⟨(hworking.finalize hop).1, by
                have hnone := (hworking.finalize hop).2
                cases hnone⟩
              replies := fun m' hm' => hworking.replies m' (List.mem_cons_of_mem m hm') }
      · rcases mem_push.mp hm' with hold | ⟨rfl, hnew⟩
        · exact h.enqueued k' m' hold
        · rw [List.mem_singleton.mp hnew]
          exact ⟨rfl, hworking.replies m List.mem_cons_self⟩
    · obtain rfl : k = k₀ := by
        by_contra hk
        have hidle := h.idle k hk
        rw [hreceiver] at hidle
        cases jobs <;> cases hidle
      have htelling := h.telling
      rw [hreceiver] at htelling
      cases htelling with
      | enqueue _ _ =>
          refine Or.inr ⟨k, replies, { h.quiet with }, ?_, fun k' hk' => ?_, fun k' hk' => ?_⟩
          · simp only [Function.update_self]
            exact .enqueue req replies
          · simp only [Function.update_of_ne hk']
            exact h.idle k' hk'
          · obtain ⟨l, hl, hothers⟩ := h.last k' hk'
            refine ⟨l, ?_, hothers⟩
            rw [← hl]
            show push s.enqueued (getClusterRank m.destination) [m] k' ++ _ = _
            rw [push_apply, List.append_assoc, List.filter_cons]
            by_cases hcluster : getClusterRank m.destination = k'
            · simp [hcluster]
            · rw [if_neg fun heq => hcluster heq.symm, if_neg (by simpa using hcluster)]
              rfl
      | told hidle => cases jobs <;> cases hidle
  · exact h

/-- **Every event keeps the progress.** -/
theorem Progress.step (h : Progress cfg s) (e : Event) : Progress cfg (s.step cfg order e) := by
  unfold State.step
  split
  · cases e with
    | call req => exact h.call
    | messagingFinalize pid => exact h.messagingFinalize
    | receiveServerMessage pid => exact h.receiveServerMessage
    | finish k pid => exact h.finish
    | receiveMpiServerRequest k pid => exact h.receiveMpiServerRequest
    | writeServerMessage k => exact h.writeServerMessage
    | sendCloseLink k => exact h.sendCloseLink
    | receiveMessage k => exact h.receiveMessage
    | runJob k => exact h.runJob
    | enqueueReply k => exact h.enqueueReply
    | returnFromDelivery k => exact h.returnFromDelivery
    | clusterDone k => exact h.clusterDone
    | readServerMessage k =>
        simp only [State.change, State.readServerMessage]
        split
        · split
          · exact h.frame _ _ _ _ _ _ _ _ _
          · exact h
        · exact h
    | forwardServerMessage k =>
        simp only [State.change, State.forwardServerMessage]
        split
        · split
          · exact h
          · split
            · split
              · exact h.frame _ _ _ _ _ _ _ _ _
              · exact h.frame _ _ _ _ _ _ _ _ _
            · split
              · exact h.frame _ _ _ _ _ _ _ _ _
              · exact h.frame _ _ _ _ _ _ _ _ _
        · exact h
    | receiveMpiServerReply k g =>
        simp only [State.change, State.receiveMpiServerReply]
        split
        · split
          · exact h
          · split
            · exact h.frame _ _ _ _ _ _ _ _ _
            · exact h.frame _ _ _ _ _ _ _ _ _
        · exact h
    | exitLoop k g =>
        simp only [State.change, State.exitLoop]
        split
        · exact h.frame _ _ _ _ _ _ _ _ _
        · exact h
    | startCleanup k g =>
        simp only [State.change, State.startCleanup]
        split
        · exact h.frame _ _ _ _ _ _ _ _ _
        · exact h
    | receiveCloseLink k =>
        simp only [State.change, State.receiveCloseLink]
        split
        · split
          · exact h
          · exact h.frame _ _ _ _ _ _ _ _ _
        · exact h
    | skipCloseLink k g =>
        simp only [State.change, State.skipCloseLink]
        split
        · exact h.frame _ _ _ _ _ _ _ _ _
        · exact h
    | startDisconnecting k g =>
        simp only [State.change, State.startDisconnecting]
        split
        · exact h.frame _ _ _ _ _ _ _ _ _
        · exact h
    | disconnectGateway k g =>
        simp only [State.change, State.disconnectGateway]
        split
        · split
          · exact h.frame _ _ _ _ _ _ _ _ _
          · exact h
        · exact h
    | dequeue k =>
        simp only [State.change, State.dequeue]
        split
        · exact h.frame _ _ _ _ _ _ _ _ _
        · split
          · exact h.frame _ _ _ _ _ _ _ _ _
          · exact h
        · exact h
    | sendMessage k =>
        simp only [State.change, State.sendMessage]
        split
        · exact h.frame _ _ _ _ _ _ _ _ _
        · exact h
    | closeSocket k =>
        simp only [State.change, State.closeSocket]
        split
        · split
          · exact h
          · exact h.frame _ _ _ _ _ _ _ _ _
        · exact h
  · exact h

/-- Nothing has been asked for at the start. -/
theorem progress_start : Progress cfg (start cfg) := by
  have hworld : (start cfg).communicators = [some (Server.Communicator.fresh 0
      (Server.tablesSpec (Server.worldMembers cfg))), none, none] := by
    rw [start, Server.initCommWorld_eq]
    rfl
  have happlication : ∀ pid, ((start cfg).application pid).early → cfg.IsApplication pid := by
    intro pid hearly
    by_contra hpid
    have hnot : pid ∉ Server.worldMembers cfg := fun hmem => hpid (Server.mem_worldMembers.mp hmem)
    simp only [start, if_neg hnot] at hearly
    cases hearly
  refine Or.inl ⟨⟨happlication, ?_, ?_, ?_, ?_, ?_⟩, ⟨?_, ?_, ?_, ?_⟩, ?_⟩
  · exact fun pid req hm => absurd hm List.not_mem_nil
  · exact fun k req hm => absurd hm List.not_mem_nil
  · exact fun k req hm => absurd hm List.not_mem_nil
  · exact fun pid req hm => absurd hm List.not_mem_nil
  · exact fun pid _ req hm => absurd hm List.not_mem_nil
  · exact ⟨_, by rw [hworld]; rfl, rfl⟩
  · intro n c hc
    rw [hworld] at hc
    match n with
    | 0 =>
        cases hc
        exact .fresh fun pid hpid => Server.mem_worldMembers.mp hpid
    | 1 => cases hc
    | 2 => cases hc
    | n + 3 => cases hc
  · rintro m ⟨c, hc, hmem⟩
    rw [hworld] at hc
    cases hc
    exact absurd (List.eq_of_mem_replicate hmem) (by simp)
  · intro k req jobs replies hworking
    cases hworking
  · exact fun k m hm => absurd hm List.not_mem_nil

end Closing

end EsalsaMpi
