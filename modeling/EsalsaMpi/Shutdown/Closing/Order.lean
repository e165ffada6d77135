import EsalsaMpi.Shutdown.Closing.Links

/-!
# A run is closed in order

`closes_in_order`: in every run, whatever order its events have, no gateway closes its sockets
to the gateways of other clusters before all gateways have left their main loops, and the answer
to `CLOSE_LINK` is written behind all replies.
-/

namespace EsalsaMpi

namespace Closing

open Server (CommunicatorRequest Reply Job)
open Queues

variable {cfg : Server.Config} {order : Server.HashOrder} {s : State} {k : Nat} {g pid : Pid}
  {taken : Nat → List Reply}

/-- A process receives a reply. -/
theorem Links.receiveServerMessage (h : Links cfg s taken) :
    Links cfg (s.receiveServerMessage pid) taken := by
  have hpop : ∀ {m : Reply} {rest : List Reply} (application : Pid → Phase),
      s.replies pid = m :: rest → Links cfg { s with
        application := application
        replies := Function.update s.replies pid rest } taken := by
    intro m rest application hreplies
    refine { h with own := fun j hj => ?_, replies := fun g hg m' hm' => ?_ }
    · have hne : master cfg j ≠ pid := by
        rintro rfl
        rw [h.own j hj] at hreplies
        cases hreplies
      simpa only [Function.update_of_ne hne] using h.own j hj
    · exact h.replies g hg m' (mem_of_mem_update hreplies hm')
  unfold State.receiveServerMessage
  split
  · rename_i hreplies _
    exact hpop _ hreplies
  · rename_i hreplies _
    exact hpop _ hreplies
  · exact h

/-- **Every event keeps the way of the replies.** -/
theorem Links.step (h : Links cfg s taken) (hchain : Chain cfg s) (hprogress : Progress cfg s)
    (e : Event) : ∃ taken', Links cfg (s.step cfg order e) taken' := by
  unfold State.step
  split
  · rename_i hpossible
    cases e with
    | call req =>
        refine ⟨taken, ?_⟩
        simp only [State.change, State.call]
        split
        · exact { h with }
        · exact h
    | messagingFinalize pid =>
        refine ⟨taken, ?_⟩
        simp only [State.change, State.messagingFinalize]
        split
        · exact { h with }
        · exact h
    | receiveServerMessage pid => exact ⟨taken, h.receiveServerMessage⟩
    | finish k pid =>
        refine ⟨taken, ?_⟩
        simp only [State.change, State.finish]
        split
        · exact { h with }
        · exact h
    | receiveMpiServerRequest k pid =>
        refine ⟨taken, ?_⟩
        simp only [State.change, State.receiveMpiServerRequest]
        split
        · split
          · exact h
          · exact { h with }
        · exact h
    | writeServerMessage k =>
        refine ⟨taken, ?_⟩
        simp only [State.change, State.writeServerMessage]
        split
        · split
          · exact h
          · exact { h with }
        · exact h
    | readServerMessage k => exact ⟨taken, h.readServerMessage⟩
    | forwardServerMessage k => exact h.forwardServerMessage hprogress hpossible
    | receiveMpiServerReply k g =>
        exact ⟨taken, h.receiveMpiServerReply hpossible.1 hpossible.2⟩
    | exitLoop k g =>
        refine ⟨taken, ?_⟩
        simp only [State.change, State.exitLoop]
        split
        · rename_i hplace
          exact h.goTo (by simp) (by rw [hplace]; simp)
        · exact h
    | startCleanup k g =>
        refine ⟨taken, ?_⟩
        simp only [State.change, State.startCleanup]
        split
        · rename_i hplace
          exact h.goTo (by simp) (by rw [hplace.1]; simp)
        · exact h
    | sendCloseLink k =>
        refine ⟨taken, ?_⟩
        simp only [State.change, State.sendCloseLink]
        split
        · rename_i hplace
          have hgone : Links cfg (s.goTo (master cfg k) .asked) taken :=
            h.goTo (by simp) (by rw [hplace]; simp)
          exact { hgone with }
        · exact h
    | receiveCloseLink k => exact ⟨taken, h.receiveCloseLink hprogress hpossible⟩
    | skipCloseLink k g =>
        refine ⟨taken, ?_⟩
        simp only [State.change, State.skipCloseLink]
        split
        · rename_i hplace
          exact h.goTo (by simp) (by rw [hplace.2]; simp)
        · exact h
    | startDisconnecting k g =>
        refine ⟨taken, ?_⟩
        simp only [State.change, State.startDisconnecting]
        split
        · rename_i hplace
          exact h.goTo (by simp) (by rw [hplace.1]; simp)
        · exact h
    | disconnectGateway k g =>
        refine ⟨taken, ?_⟩
        simp only [State.change, State.disconnectGateway]
        split
        · rename_i hplace
          split
          · exact h.goTo (by simp) (by rw [hplace]; simp)
          · exact h
        · exact h
    | receiveMessage k =>
        refine ⟨taken, ?_⟩
        simp only [State.change, State.receiveMessage]
        split
        · split
          · exact h
          · exact { h with }
        · exact { h with }
        · exact h
    | runJob k =>
        refine ⟨taken, ?_⟩
        simp only [State.change, State.runJob]
        split
        · split
          · exact { h with }
          · exact { h with }
        · exact h
    | enqueueReply k => exact ⟨taken, h.enqueueReply hchain hprogress⟩
    | returnFromDelivery k =>
        refine ⟨taken, ?_⟩
        simp only [State.change, State.returnFromDelivery]
        split
        · exact { h with }
        · exact h
    | clusterDone k =>
        refine ⟨taken, ?_⟩
        simp only [State.change, State.clusterDone]
        split
        · exact { h with }
        · exact h
    | dequeue k => exact ⟨taken, h.dequeue⟩
    | sendMessage k => exact ⟨taken, h.sendMessage⟩
    | closeSocket k => exact ⟨taken, h.closeSocket⟩
  · exact ⟨taken, h⟩

theorem links_start : Links cfg (start cfg) fun _ => [] where
  path _ := rfl
  written _ := rfl
  out _ _ hleft := absurd rfl hleft
  left _ _ _ := rfl
  own _ _ := rfl
  replies _ _ _ hm := absurd hm List.not_mem_nil
  alive _ _ _ _ := by simp [start]

/-- What holds in every state of a run. -/
structure Inv (cfg : Server.Config) (s : State) : Prop where
  chain : Chain cfg s
  progress : Progress cfg s
  links : ∃ taken, Links cfg s taken

theorem inv_start : Inv cfg (start cfg) := ⟨chain_start, progress_start, _, links_start⟩

theorem Inv.step (h : Inv cfg s) (e : Event) : Inv cfg (s.step cfg order e) := by
  obtain ⟨taken, hlinks⟩ := h.links
  exact ⟨h.chain.step (fun k hk hasked x rest => hlinks.answer h.progress hk hasked) e,
    h.progress.step e, hlinks.step h.chain h.progress e⟩

theorem inv_run (cfg : Server.Config) (order : Server.HashOrder) (events : List Event) :
    Inv cfg (run cfg order events) := by
  have hall : ∀ s, Inv cfg s → Inv cfg (events.foldl (State.step cfg order) s) := by
    induction events with
    | nil => exact fun s h => h
    | cons e events ih => exact fun s h => ih _ (h.step e)
  exact hall _ inv_start

/-- **Closing.**  No gateway closes its sockets before all gateways of all clusters have left
their main loops, and on every link the answer to `CLOSE_LINK` comes behind every reply that is
ever enqueued for the cluster.  The processes and gateways of a cluster are not more than
`MAX_PROCESSES_PER_CLUSTER` together (`Server.Config.size_le`). -/
theorem closes_in_order (cfg : Server.Config) (order : Server.HashOrder) (events : List Event) :
    InOrder cfg (run cfg order events) := by
  obtain ⟨hchain, hprogress, taken, hlinks⟩ := inv_run cfg order events
  constructor
  · rintro k hk g hg index (⟨next, hplace, -, -⟩ | hfailed)
    · refine hchain.left_of_disconnecting hk hg ?_
      rw [hplace]
      exact Nat.le_refl 5
    · exact absurd hfailed (hlinks.alive k hk g hg)
  · intro k hk hanswer
    have hwritten := hlinks.written k
    cases hclosed : ((run cfg order events).sender k).hasClosed with
    | false =>
        rw [hclosed] at hwritten
        rw [hwritten] at hanswer
        simp at hanswer
    | true =>
        have hleft : ((run cfg order events).sender k).hasLeft := by
          cases hsender : (run cfg order events).sender k with
          | closed => rfl
          | sending => rw [hsender] at hclosed; cases hclosed
          | writing m => rw [hsender] at hclosed; cases hclosed
          | closing => rw [hsender] at hclosed; cases hclosed
        obtain ⟨-, hheld, hincoming, -⟩ := hlinks.settled hprogress hk (hchain.ne_loop hk hleft)
        have hpath := hlinks.path k
        rw [hheld, hincoming, List.append_nil, List.append_nil] at hpath
        rw [hwritten, hclosed, ← hpath]
        rfl

/-- Two clusters of one process and one gateway, from the calls of `messaging_finalize` to the
closing of all sockets. -/
def closingEvents : List Event :=
  [0, 1].flatMap (fun k => [.messagingFinalize (setPid k 0),
    .receiveMpiServerRequest k (setPid k 0), .writeServerMessage k]) ++
  [.receiveMessage 0, .returnFromDelivery 0,
    .receiveMessage 1, .runJob 1, .runJob 1, .enqueueReply 1, .enqueueReply 1, .enqueueReply 1,
    .enqueueReply 1, .returnFromDelivery 1] ++
  [0, 1].flatMap (fun k => [.dequeue k, .sendMessage k, .dequeue k, .sendMessage k,
    .readServerMessage k, .readServerMessage k, .forwardServerMessage k, .forwardServerMessage k,
    .receiveServerMessage (setPid k 0), .exitLoop k (setPid k 1), .startCleanup k (setPid k 1),
    .sendCloseLink k, .receiveMessage k, .clusterDone k, .dequeue k]) ++
  [0, 1].flatMap (fun k => [.closeSocket k, .receiveCloseLink k,
    .startDisconnecting k (setPid k 1), .disconnectGateway k (setPid k 1),
    .disconnectGateway k (setPid k 1)])

/-- This run comes to its end, and in order. -/
theorem closes_in_order_pair :
    (∀ k < 2, (run .pair .insertion closingEvents).gateway (setPid k 1) = .disconnecting 2 ∧
      ToMaster.closeLink ∈ (run .pair .insertion closingEvents).written k) ∧
    InOrder .pair (run .pair .insertion closingEvents) :=
  ⟨by decide +kernel, closes_in_order .pair .insertion closingEvents⟩

end Closing

end EsalsaMpi
