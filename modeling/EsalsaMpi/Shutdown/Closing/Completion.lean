import EsalsaMpi.Library.Endings
import EsalsaMpi.Library.Shares
import EsalsaMpi.Shutdown.Closing.Order
import EsalsaMpi.Shutdown.Closing.Telling

/-!
# The closing comes to its end

Once the server has begun to carry out `FINALIZE`, every run is finite, with a bound for all of
them, in whatever order the processes, the gateways and the threads of the server take their
steps; and where none of them can go on, all processes have returned from `EMPI_Finalize`, all
gateways have closed their sockets to the other clusters and the threads of the server have
closed the links (`closes`).  No barrier, no wait of the server for the other clusters and no
wait for `CLOSE_LINK` is for something that does not come.

The steps left are counted by the stages on the way: of a reply from the thread that sends it to
the process that takes it, of a gateway, of a process and of a thread.
-/

namespace EsalsaMpi

namespace Closing

open Server (CommunicatorRequest Reply Job)
open Endings Queues Shares

variable {cfg : Server.Config} {order : Server.HashOrder} {s s' : State} {k k₀ : Nat} {g p pid : Pid}
  {rest : List Reply}

/-- A step that changes something. -/
def Moves (cfg : Server.Config) (order : Server.HashOrder) (s s' : State) : Prop :=
  s' ≠ s ∧ ∃ e, s' = s.step cfg order e

/-- **Everything is closed.** -/
structure Closed (cfg : Server.Config) (s : State) : Prop where
  application : ∀ pid, s.application pid = .finished
  server : ∀ k < cfg.numberOfClusters, s.receiver k = .stopped ∧ s.sender k = .closed
  sockets : ∀ k < cfg.numberOfClusters, ∀ g ∈ gateways cfg k, s.gateway g ≠ .failed ∧
    ∀ index < cfg.numberOfClusters, index ≠ k → s.HasClosed g index

/-! ### The steps left -/

/-- The steps left for a job. -/
def jobSteps : Job → Nat
  | .tell replies => 6 * replies.length + 1
  | _ => 1

def Receiver.stepsLeft : Receiver → Nat
  | .working _ jobs replies => (jobs.map jobSteps).sum + 6 * replies.length + 3
  | .reading => 2
  | .finishing => 1
  | .stopped => 0

def Sender.stepsLeft : Sender → Nat
  | .writing _ => 6
  | .sending => 2
  | .closing => 1
  | .closed => 0

def Phase.stepsLeft : Phase → Nat
  | .finalizing => 2
  | .barrier => 1
  | _ => 0

def Place.stepsLeft (clusters : Nat) : Place → Nat
  | .loop _ => clusters + 6
  | .worldBarrier => clusters + 5
  | .cleanup => clusters + 4
  | .asked => clusters + 3
  | .gatewayBarrier => clusters + 2
  | .disconnecting index => clusters - index
  | .failed => 0

/-- The clusters. -/
def clusters (cfg : Server.Config) : Finset Nat := Finset.range cfg.numberOfClusters

/-- **The steps left.** -/
noncomputable def State.stepsLeft (cfg : Server.Config) (s : State) : Nat :=
  total (clusters cfg) Receiver.stepsLeft s.receiver +
    total (clusters cfg) (fun ms => 5 * ms.length) s.incoming +
    total (clusters cfg) Sender.stepsLeft s.sender +
    total (clusters cfg) (fun ms => 3 * (ms.filterMap ToMaster.reply?).length) s.toMaster +
    total (clusters cfg) (fun ms => 2 * ms.length) s.serverQueueIn +
    total pids List.length s.replies +
    total pids Phase.stepsLeft s.application +
    total pids (Place.stepsLeft cfg.numberOfClusters) s.gateway

/-- Nothing changes, or less is left. -/
def Shrinks (cfg : Server.Config) (s s' : State) : Prop :=
  s' = s ∨ s'.stepsLeft cfg < s.stepsLeft cfg

theorem mem_clusters (hk : k < cfg.numberOfClusters) : k ∈ clusters cfg := Finset.mem_range.mpr hk

/-- A gateway goes on. -/
theorem goTo_shrinks {place : Place}
    (hplace : place.stepsLeft cfg.numberOfClusters <
      (s.gateway g).stepsLeft cfg.numberOfClusters) : Shrinks cfg s (s.goTo g place) := by
  have hgateway := total_update (mem_pids g) (Place.stepsLeft cfg.numberOfClusters) s.gateway place
  right
  simp only [State.stepsLeft, State.goTo]
  omega

theorem receiveServerMessage_shrinks : Shrinks cfg s (s.receiveServerMessage pid) := by
  unfold State.receiveServerMessage
  split
  · rename_i m rest hreplies hphase
    have hpop := total_update (mem_pids pid) List.length s.replies rest
    have hgo := total_update (mem_pids pid) Phase.stepsLeft s.application .running
    rw [hreplies, List.length_cons] at hpop
    simp only [hphase, Phase.stepsLeft] at hgo
    right
    simp only [State.stepsLeft]
    omega
  · rename_i m rest hreplies hphase
    have hpop := total_update (mem_pids pid) List.length s.replies rest
    have hgo := total_update (mem_pids pid) Phase.stepsLeft s.application .barrier
    rw [hreplies, List.length_cons] at hpop
    simp only [hphase, Phase.stepsLeft] at hgo
    right
    simp only [State.stepsLeft]
    omega
  · exact Or.inl rfl

theorem finish_shrinks : Shrinks cfg s (s.finish cfg k pid) := by
  unfold State.finish
  split
  · rename_i hphase
    have hgo := total_update (mem_pids pid) Phase.stepsLeft s.application .finished
    simp only [hphase.1, Phase.stepsLeft] at hgo
    right
    simp only [State.stepsLeft]
    omega
  · exact Or.inl rfl

theorem readServerMessage_shrinks (hk : k < cfg.numberOfClusters) :
    Shrinks cfg s (s.readServerMessage cfg k) := by
  unfold State.readServerMessage
  split
  · split
    · rename_i m rest hlink
      have hread := total_update (mem_clusters hk)
        (fun ms => 3 * (ms.filterMap ToMaster.reply?).length) s.toMaster rest
      have hqueue := total_update (mem_clusters hk) (fun ms => 2 * ms.length) s.serverQueueIn
        (s.serverQueueIn k ++ [m])
      simp only [hlink, List.filterMap_cons_some (show ToMaster.reply? (.reply m) = some m from rfl),
        List.length_cons, List.length_append, List.length_nil] at hread hqueue
      right
      simp only [State.stepsLeft, push]
      omega
    · exact Or.inl rfl
  · exact Or.inl rfl

theorem forwardServerMessage_shrinks (hk : k < cfg.numberOfClusters) :
    Shrinks cfg s (s.forwardServerMessage cfg k) := by
  unfold State.forwardServerMessage
  split
  · rename_i hloop
    have hleft : (s.gateway (master cfg k)).stepsLeft cfg.numberOfClusters =
        cfg.numberOfClusters + 6 := by
      revert hloop
      cases s.gateway (master cfg k) <;> simp [Place.inLoop, Place.stepsLeft]
    have hfailed : Shrinks cfg s (s.goTo (master cfg k) .failed) :=
      goTo_shrinks (by rw [hleft]; exact Nat.succ_pos _)
    split
    · exact Or.inl rfl
    · rename_i m rest hqueue
      have hpop := total_update (mem_clusters hk) (fun ms => 2 * ms.length) s.serverQueueIn rest
      simp only [hqueue, List.length_cons] at hpop
      split
      · split
        · have hgateway := total_update (mem_pids (master cfg k))
            (Place.stepsLeft cfg.numberOfClusters) s.gateway (.loop true)
          rw [hleft, Place.stepsLeft] at hgateway
          right
          simp only [State.stepsLeft]
          omega
        · exact hfailed
      · split
        · have hpush := total_update (mem_pids m.destination) List.length s.replies
            (s.replies m.destination ++ [m])
          rw [List.length_append, List.length_singleton] at hpush
          right
          simp only [State.stepsLeft, push]
          omega
        · exact hfailed
  · exact Or.inl rfl

theorem receiveMpiServerReply_shrinks : Shrinks cfg s (s.receiveMpiServerReply g) := by
  unfold State.receiveMpiServerReply
  split
  · rename_i hloop
    have hleft : (s.gateway g).stepsLeft cfg.numberOfClusters = cfg.numberOfClusters + 6 := by
      revert hloop
      cases s.gateway g <;> simp [Place.inLoop, Place.stepsLeft]
    split
    · exact Or.inl rfl
    · rename_i m rest hreplies
      split
      · have hpop := total_update (mem_pids g) List.length s.replies rest
        have hgateway := total_update (mem_pids g) (Place.stepsLeft cfg.numberOfClusters)
          s.gateway (.loop true)
        rw [hreplies, List.length_cons] at hpop
        rw [hleft, Place.stepsLeft] at hgateway
        right
        simp only [State.stepsLeft]
        omega
      · exact goTo_shrinks (by rw [hleft]; exact Nat.succ_pos _)
  · exact Or.inl rfl

theorem receiveCloseLink_shrinks (hk : k < cfg.numberOfClusters) :
    Shrinks cfg s (s.receiveCloseLink cfg k) := by
  unfold State.receiveCloseLink
  split
  · rename_i hplace
    split
    · exact Or.inl rfl
    · rename_i x rest hlink
      have hread := total_update (mem_clusters hk)
        (fun ms => 3 * (ms.filterMap ToMaster.reply?).length) s.toMaster rest
      have hgateway := total_update (mem_pids (master cfg k))
        (Place.stepsLeft cfg.numberOfClusters) s.gateway .gatewayBarrier
      have hless : (rest.filterMap ToMaster.reply?).length ≤
          ((x :: rest).filterMap ToMaster.reply?).length :=
        ((List.sublist_cons_self x rest).filterMap _).length_le
      rw [hlink] at hread
      simp only [hplace, Place.stepsLeft] at hgateway
      right
      simp only [State.stepsLeft]
      omega
  · exact Or.inl rfl

theorem sendCloseLink_shrinks : Shrinks cfg s (s.sendCloseLink cfg k) := by
  unfold State.sendCloseLink
  split
  · rename_i hplace
    have hgateway := total_update (mem_pids (master cfg k))
      (Place.stepsLeft cfg.numberOfClusters) s.gateway .asked
    simp only [hplace, Place.stepsLeft] at hgateway
    right
    simp only [State.stepsLeft]
    omega
  · exact Or.inl rfl

/-- The threads have `CLOSE_LINK` left to read only. -/
theorem receiveMessage_shrinks (hquiet : Quiet s) (hk : k < cfg.numberOfClusters) :
    Shrinks cfg s (s.receiveMessage cfg order k) := by
  unfold State.receiveMessage
  split
  · rename_i req rest hreceiver hlink
    have hrequest := hquiet.link k req
    rw [hlink] at hrequest
    exact absurd List.mem_cons_self hrequest
  · rename_i rest hreceiver hlink
    have hgo := total_update (mem_clusters hk) Receiver.stepsLeft s.receiver .finishing
    simp only [hreceiver, Receiver.stepsLeft] at hgo
    right
    simp only [State.stepsLeft]
    omega
  · exact Or.inl rfl

/-- A thread is left with the jobs of `FINALIZE` only. -/
theorem runJob_shrinks (h : After cfg s k₀ rest) (hk : k < cfg.numberOfClusters) :
    Shrinks cfg s (s.runJob cfg k) := by
  unfold State.runJob
  split
  · rename_i req job jobs hreceiver
    obtain rfl : k = k₀ := by
      by_contra hne
      have hidle := h.idle k hne
      rw [hreceiver] at hidle
      cases hidle
    have htelling := h.telling
    rw [hreceiver] at htelling
    cases htelling with
    | free _ =>
        have hgo := total_update (mem_clusters hk) Receiver.stepsLeft s.receiver
          (.working req [.tell (finalizeReplies cfg)] [])
        simp only [hreceiver, Receiver.stepsLeft, List.map_cons, List.sum_cons, jobSteps] at hgo
        right
        simp only [State.stepsLeft, Job.run]
        omega
    | tell _ =>
        have hgo := total_update (mem_clusters hk) Receiver.stepsLeft s.receiver
          (.working req [] (finalizeReplies cfg))
        simp only [hreceiver, Receiver.stepsLeft, List.map_cons, List.map_nil, List.sum_cons,
          List.sum_nil, List.length_nil, jobSteps] at hgo
        right
        simp only [State.stepsLeft, Job.run, enqueueReplies_finalizeReplies]
        omega
    | told hidle => cases hidle
  · exact Or.inl rfl

theorem enqueueReply_shrinks (hk : k < cfg.numberOfClusters) :
    Shrinks cfg s (s.enqueueReply k) := by
  unfold State.enqueueReply
  split
  · rename_i req jobs m replies hreceiver
    have hgo := total_update (mem_clusters hk) Receiver.stepsLeft s.receiver
      (.working req jobs replies)
    have hpush : total (clusters cfg) (fun ms => 5 * ms.length)
        (push s.incoming (getClusterRank m.destination) [m]) ≤
          total (clusters cfg) (fun ms => 5 * ms.length) s.incoming + 5 := by
      by_cases hmem : getClusterRank m.destination ∈ clusters cfg
      · have hgrown := total_update hmem (fun ms => 5 * ms.length) s.incoming
          (s.incoming (getClusterRank m.destination) ++ [m])
        simp only [List.length_append, List.length_singleton] at hgrown
        rw [push]
        omega
      · rw [push, total_update_of_notMem hmem]
        exact Nat.le_add_right _ 5
    simp only [hreceiver, Receiver.stepsLeft, List.length_cons] at hgo
    right
    simp only [State.stepsLeft]
    omega
  · exact Or.inl rfl

theorem returnFromDelivery_shrinks (hk : k < cfg.numberOfClusters) :
    Shrinks cfg s (s.returnFromDelivery k) := by
  unfold State.returnFromDelivery
  split
  · rename_i hreceiver
    have hgo := total_update (mem_clusters hk) Receiver.stepsLeft s.receiver .reading
    simp only [hreceiver, Receiver.stepsLeft] at hgo
    right
    simp only [State.stepsLeft]
    omega
  · exact Or.inl rfl

theorem clusterDone_shrinks (hk : k < cfg.numberOfClusters) :
    Shrinks cfg s (s.clusterDone k) := by
  unfold State.clusterDone
  split
  · rename_i hreceiver
    have hgo := total_update (mem_clusters hk) Receiver.stepsLeft s.receiver .stopped
    simp only [hreceiver, Receiver.stepsLeft] at hgo
    right
    simp only [State.stepsLeft]
    omega
  · exact Or.inl rfl

theorem dequeue_shrinks (hk : k < cfg.numberOfClusters) : Shrinks cfg s (s.dequeue k) := by
  unfold State.dequeue
  split
  · rename_i m rest hsender hincoming
    have hgo := total_update (mem_clusters hk) Sender.stepsLeft s.sender (.writing m)
    have hpop := total_update (mem_clusters hk) (fun ms => 5 * ms.length) s.incoming rest
    simp only [hsender, Sender.stepsLeft] at hgo
    simp only [hincoming, List.length_cons] at hpop
    right
    simp only [State.stepsLeft]
    omega
  · rename_i hsender hincoming
    split
    · have hgo := total_update (mem_clusters hk) Sender.stepsLeft s.sender .closing
      simp only [hsender, Sender.stepsLeft] at hgo
      right
      simp only [State.stepsLeft]
      omega
    · exact Or.inl rfl
  · exact Or.inl rfl

theorem sendMessage_shrinks (hk : k < cfg.numberOfClusters) :
    Shrinks cfg s (s.sendMessage k) := by
  unfold State.sendMessage
  split
  · rename_i m hsender
    have hgo := total_update (mem_clusters hk) Sender.stepsLeft s.sender .sending
    have hpush := total_update (mem_clusters hk)
      (fun ms => 3 * (ms.filterMap ToMaster.reply?).length) s.toMaster (s.toMaster k ++ [.reply m])
    simp only [hsender, Sender.stepsLeft] at hgo
    simp only [List.filterMap_append, List.length_append,
      List.filterMap_cons_some (show ToMaster.reply? (.reply m) = some m from rfl),
      List.filterMap_nil, List.length_singleton] at hpush
    right
    simp only [State.stepsLeft, push]
    omega
  · exact Or.inl rfl

theorem closeSocket_shrinks (hk : k < cfg.numberOfClusters) :
    Shrinks cfg s (s.closeSocket cfg k) := by
  unfold State.closeSocket
  split
  · rename_i hsender
    split
    · exact Or.inl rfl
    · have hgo := total_update (mem_clusters hk) Sender.stepsLeft s.sender .closed
      have hpush := total_update (mem_clusters hk)
        (fun ms => 3 * (ms.filterMap ToMaster.reply?).length) s.toMaster
        (s.toMaster k ++ [.closeLink])
      simp only [hsender, Sender.stepsLeft] at hgo
      simp only [List.filterMap_append, List.length_append,
        List.filterMap_cons_none (show ToMaster.reply? .closeLink = none from rfl),
        List.filterMap_nil, List.length_nil] at hpush
      right
      simp only [State.stepsLeft, push]
      omega
  · exact Or.inl rfl

/-- **Whatever changes**, less is left to do. -/
theorem After.shrinks_change (h : After cfg s k₀ rest) (e : Event) (hpossible : e.Possible cfg) :
    Shrinks cfg s (s.change cfg order e) := by
  have hnobody : ∀ pid, s.application pid ≠ .running := by
    intro pid hrunning
    have hearly := h.quiet.early pid
    rw [hrunning] at hearly
    cases hearly
  cases e with
  | call req => exact Or.inl (if_neg fun hphase => hnobody _ hphase.1)
  | messagingFinalize pid => exact Or.inl (if_neg (hnobody pid))
  | receiveServerMessage pid => exact receiveServerMessage_shrinks
  | finish k pid => exact finish_shrinks
  | receiveMpiServerRequest k pid =>
      left
      simp only [State.change, State.receiveMpiServerRequest, h.quiet.requests, ite_self]
  | writeServerMessage k =>
      left
      simp only [State.change, State.writeServerMessage, h.quiet.queue, ite_self]
  | readServerMessage k => exact readServerMessage_shrinks hpossible
  | forwardServerMessage k => exact forwardServerMessage_shrinks hpossible
  | receiveMpiServerReply k g => exact receiveMpiServerReply_shrinks
  | exitLoop k g =>
      simp only [State.change, State.exitLoop]
      split
      · rename_i hplace
        exact goTo_shrinks (by rw [hplace]; exact Nat.lt_succ_self _)
      · exact Or.inl rfl
  | startCleanup k g =>
      simp only [State.change, State.startCleanup]
      split
      · rename_i hplace
        exact goTo_shrinks (by rw [hplace.1]; exact Nat.lt_succ_self _)
      · exact Or.inl rfl
  | sendCloseLink k => exact sendCloseLink_shrinks
  | receiveCloseLink k => exact receiveCloseLink_shrinks hpossible
  | skipCloseLink k g =>
      simp only [State.change, State.skipCloseLink]
      split
      · rename_i hplace
        refine goTo_shrinks ?_
        simp only [hplace.2, Place.stepsLeft]
        omega
      · exact Or.inl rfl
  | startDisconnecting k g =>
      simp only [State.change, State.startDisconnecting]
      split
      · rename_i hplace
        refine goTo_shrinks ?_
        simp only [hplace.1, Place.stepsLeft]
        omega
      · exact Or.inl rfl
  | disconnectGateway k g =>
      simp only [State.change, State.disconnectGateway]
      split
      · rename_i index hplace
        split
        · refine goTo_shrinks ?_
          simp only [hplace, Place.stepsLeft]
          omega
        · exact Or.inl rfl
      · exact Or.inl rfl
  | receiveMessage k => exact receiveMessage_shrinks h.quiet hpossible
  | runJob k => exact runJob_shrinks h hpossible
  | enqueueReply k => exact enqueueReply_shrinks hpossible
  | returnFromDelivery k => exact returnFromDelivery_shrinks hpossible
  | clusterDone k => exact clusterDone_shrinks hpossible
  | dequeue k => exact dequeue_shrinks hpossible
  | sendMessage k => exact sendMessage_shrinks hpossible
  | closeSocket k => exact closeSocket_shrinks hpossible

theorem After.stepsLeft_lt (h : After cfg s k₀ rest) (hmoves : Moves cfg order s s') :
    s'.stepsLeft cfg < s.stepsLeft cfg := by
  obtain ⟨hne, e, rfl⟩ := hmoves
  unfold State.step at hne ⊢
  split at hne
  · rename_i hpossible
    rw [if_pos hpossible]
    exact (h.shrinks_change e hpossible).resolve_left hne
  · exact absurd rfl hne

/-! ### Where nothing can go on -/

/-- No process, gateway or thread can go on. -/
def Stuck (cfg : Server.Config) (order : Server.HashOrder) (s : State) : Prop :=
  ∀ e : Event, e.Possible cfg → s.change cfg order e = s

theorem stuck_or_moves (cfg : Server.Config) (order : Server.HashOrder) (s : State) :
    Stuck cfg order s ∨ ∃ s', Moves cfg order s s' := by
  by_cases hstuck : Stuck cfg order s
  · exact Or.inl hstuck
  · right
    unfold Stuck at hstuck
    push Not at hstuck
    obtain ⟨e, hpossible, hne⟩ := hstuck
    refine ⟨_, ?_, e, rfl⟩
    rwa [State.step, if_pos hpossible]

section Stuck

variable (hstuck : Stuck cfg order s)
include hstuck

/-- The threads have nothing left to do. -/
theorem Stuck.receiver (hk : k < cfg.numberOfClusters) :
    s.receiver k = .reading ∨ s.receiver k = .stopped := by
  cases hreceiver : s.receiver k with
  | reading => exact Or.inl rfl
  | stopped => exact Or.inr rfl
  | finishing =>
      have hsame := congrFun (congrArg State.receiver (hstuck (.clusterDone k) hk)) k
      simp only [State.change, State.clusterDone, hreceiver, Function.update_self] at hsame
      cases hsame
  | working req jobs replies =>
      cases replies with
      | cons m replies =>
          have hsame := congrFun (congrArg State.receiver (hstuck (.enqueueReply k) hk)) k
          simp only [State.change, State.enqueueReply, hreceiver, Function.update_self,
            Receiver.working.injEq] at hsame
          exact absurd hsame.2.2.symm (List.cons_ne_self _ _)
      | nil =>
          cases jobs with
          | nil =>
              have hsame := congrFun (congrArg State.receiver
                (hstuck (.returnFromDelivery k) hk)) k
              simp only [State.change, State.returnFromDelivery, hreceiver,
                Function.update_self] at hsame
              cases hsame
          | cons job jobs =>
              have hsame := congrFun (congrArg State.receiver (hstuck (.runJob k) hk)) k
              simp only [State.change, State.runJob, hreceiver] at hsame
              split at hsame
              · simp only [Function.update_self, Receiver.working.injEq] at hsame
                exact absurd hsame.2.1 (List.cons_ne_nil _ _).symm
              · simp only [Function.update_self, Receiver.working.injEq] at hsame
                exact absurd hsame.2.1.symm (List.cons_ne_self _ _)

/-- A sender thread that is in its loop has nothing to send, and is not told to leave. -/
theorem Stuck.sending (hk : k < cfg.numberOfClusters) (hsender : s.sender k = .sending) :
    s.incoming k = [] ∧ s.done k = false := by
  have hsame := congrFun (congrArg State.sender (hstuck (.dequeue k) hk)) k
  cases hincoming : s.incoming k with
  | cons m rest =>
      simp only [State.change, State.dequeue, hsender, hincoming, Function.update_self] at hsame
      cases hsame
  | nil =>
      simp only [State.change, State.dequeue, hsender, hincoming] at hsame
      split at hsame
      · simp only [Function.update_self] at hsame
        cases hsame
      · rename_i hdone
        exact ⟨rfl, by simpa using hdone⟩

/-- It is in its loop, in front of the count, or has closed the link. -/
theorem Stuck.sender (hk : k < cfg.numberOfClusters) :
    s.sender k = .sending ∨ (s.sender k = .closing ∧ s.clustersDone < cfg.numberOfClusters) ∨
      s.sender k = .closed := by
  cases hsender : s.sender k with
  | sending => exact Or.inl rfl
  | closed => exact Or.inr (Or.inr rfl)
  | writing m =>
      have hsame := congrFun (congrArg State.sender (hstuck (.sendMessage k) hk)) k
      simp only [State.change, State.sendMessage, hsender, Function.update_self] at hsame
      cases hsame
  | closing =>
      refine Or.inr (Or.inl ⟨rfl, ?_⟩)
      have hsame := congrFun (congrArg State.sender (hstuck (.closeSocket k) hk)) k
      simp only [State.change, State.closeSocket, hsender] at hsame
      split at hsame
      · assumption
      · simp only [Function.update_self] at hsame
        cases hsame

/-- **No reply is on its way** to a master gateway. -/
theorem Stuck.settled (hinv : Inv cfg s) (hk : k < cfg.numberOfClusters) :
    s.coming k = [] ∧ (s.sender k).held = [] ∧ s.incoming k = [] := by
  obtain ⟨taken, hlinks⟩ := hinv.links
  by_cases hloop : s.gateway (master cfg k) = .loop false
  · have hin : (s.gateway (master cfg k)).inLoop = true := by rw [hloop]; rfl
    -- the server has not closed the link
    have hleft : (s.sender k).hasLeft ≠ true := fun hleft =>
      absurd hloop (hinv.chain.ne_loop hk hleft)
    have hqueue : s.serverQueueIn k = [] := by
      cases hqueue : s.serverQueueIn k with
      | nil => rfl
      | cons m rest =>
          have hsame := hstuck (.forwardServerMessage k) hk
          simp only [State.change, State.forwardServerMessage, if_pos hin, hqueue] at hsame
          split at hsame
          · split at hsame
            · have hpop := congrFun (congrArg State.serverQueueIn hsame) k
              simp only [Function.update_self, hqueue] at hpop
              exact absurd hpop.symm (List.cons_ne_self _ _)
            · have hplace := congrFun (congrArg State.gateway hsame) (master cfg k)
              simp only [State.goTo, Function.update_self, hloop] at hplace
              cases hplace
          · split at hsame
            · have hpop := congrFun (congrArg State.serverQueueIn hsame) k
              simp only [Function.update_self, hqueue] at hpop
              exact absurd hpop.symm (List.cons_ne_self _ _)
            · have hplace := congrFun (congrArg State.gateway hsame) (master cfg k)
              simp only [State.goTo, Function.update_self, hloop] at hplace
              cases hplace
    have hlink : s.toMaster k = [] := by
      cases hlink : s.toMaster k with
      | nil => rfl
      | cons x rest =>
          cases x with
          | reply m =>
              have hpop := congrFun (congrArg State.toMaster (hstuck (.readServerMessage k) hk)) k
              simp only [State.change, State.readServerMessage, if_pos hin, hlink,
                Function.update_self] at hpop
              exact absurd hpop.symm (List.cons_ne_self _ _)
          | closeLink =>
              have hclosed := hinv.chain.answer k hk (by rw [hlink]; exact List.mem_cons_self)
              refine absurd ?_ hleft
              revert hclosed
              cases s.sender k <;> simp [Sender.hasClosed, Sender.hasLeft]
    refine ⟨by rw [State.coming, hqueue, hlink]; rfl, ?_⟩
    rcases hstuck.sender hk with hsender | ⟨hsender, _⟩ | hsender
    · rw [hsender]
      exact ⟨rfl, (hstuck.sending hk hsender).1⟩
    · rw [hsender] at hleft
      exact absurd rfl hleft
    · rw [hsender] at hleft
      exact absurd rfl hleft
  · obtain ⟨hcoming, hheld, hincoming, _⟩ := hlinks.settled hinv.progress hk hloop
    exact ⟨hcoming, hheld, hincoming⟩

/-- So whoever waits has its reply. -/
theorem Stuck.replied (hinv : Inv cfg s) (hcomes : s.Comes cfg p)
    (hp : getClusterRank p < cfg.numberOfClusters) : s.replies p ≠ [] := by
  obtain ⟨hcoming, hheld, hincoming⟩ := hstuck.settled hinv hp
  cases hcomes with
  | left hk hm _ => rcases hstuck.receiver hk with h | h <;> rw [h] at hm <;> cases hm
  | incoming hm _ =>
      rw [hincoming] at hm
      cases hm
  | held hm _ =>
      rw [hheld] at hm
      cases hm
  | coming hm _ =>
      rw [hcoming] at hm
      cases hm
  | replies hne => exact hne

/-- **All gateways have left their main loops.** -/
theorem Stuck.left (hinv : Inv cfg s) (htold : ∀ p, s.Waits cfg p → s.Comes cfg p)
    (hk : k < cfg.numberOfClusters) (hg : g ∈ gateways cfg k) : 1 ≤ (s.gateway g).stage := by
  obtain ⟨taken, hlinks⟩ := hinv.links
  cases hplace : s.gateway g with
  | failed => exact absurd hplace (hlinks.alive k hk g hg)
  | loop done =>
      cases done with
      | true =>
          have hgone := congrFun (congrArg State.gateway (hstuck (.exitLoop k g) ⟨hk, hg⟩)) g
          simp only [State.change, State.exitLoop, hplace, if_true, State.goTo,
            Function.update_self] at hgone
          cases hgone
      | false =>
          have hcluster := getClusterRank_gateway hk hg
          have hreplied := hstuck.replied hinv (htold g (Or.inr ⟨k, hk, hg, hplace⟩))
            (by rw [hcluster]; exact hk)
          obtain ⟨m, rest, hreplies⟩ := List.exists_cons_of_ne_nil hreplied
          have hin : (s.gateway g).inLoop = true := by rw [hplace]; rfl
          have hsame := hstuck (.receiveMpiServerReply k g) ⟨hk, hg⟩
          simp only [State.change, State.receiveMpiServerReply, if_pos hin, hreplies] at hsame
          split at hsame
          · have hpop := congrFun (congrArg State.replies hsame) g
            simp only [Function.update_self, hreplies] at hpop
            exact absurd hpop.symm (List.cons_ne_self _ _)
          · have hgone := congrFun (congrArg State.gateway hsame) g
            simp only [State.goTo, Function.update_self, hplace] at hgone
            cases hgone
  | worldBarrier => exact Nat.le_refl 1
  | cleanup => exact Nat.le_succ 1
  | asked => exact Nat.le_add_left 1 2
  | gatewayBarrier => exact Nat.le_add_left 1 3
  | disconnecting index => exact Nat.le_add_left 1 4

/-- **All processes are in the barrier or behind it.** -/
theorem Stuck.atBarrier (hinv : Inv cfg s) (hclients : ClientsOnly cfg s) (hquiet : Quiet s)
    (htold : ∀ p, s.Waits cfg p → s.Comes cfg p) (pid : Pid) :
    (s.application pid).atBarrier = true := by
  cases hphase : s.application pid with
  | running =>
      have hearly := hquiet.early pid
      rw [hphase] at hearly
      cases hearly
  | waiting =>
      have hearly := hquiet.early pid
      rw [hphase] at hearly
      cases hearly
  | finalizing =>
      have happlication := hclients pid (by rw [hphase]; simp)
      have hreplied := hstuck.replied hinv (htold pid (Or.inl hphase)) happlication.cluster_lt
      obtain ⟨m, rest, hreplies⟩ := List.exists_cons_of_ne_nil hreplied
      have hpop := congrFun (congrArg State.replies
        (hstuck (.receiveServerMessage pid) trivial)) pid
      simp only [State.change, State.receiveServerMessage, hreplies, hphase,
        Function.update_self] at hpop
      exact absurd hpop.symm (List.cons_ne_self _ _)
  | barrier => rfl
  | finished => rfl

end Stuck

theorem mem_applications (h : cfg.IsApplication pid) :
    pid ∈ applications cfg (getClusterRank pid) := by
  obtain ⟨hcluster, hprocesses⟩ := bounds h.cluster_lt
  obtain ⟨size, hsize, hlt⟩ := h
  have hlt : getProcessRank pid < applicationSize cfg (getClusterRank pid) := by
    rwa [applicationSize, List.getD_eq_getElem?_getD, hsize]
  refine List.mem_map.mpr ⟨getProcessRank pid, List.mem_range.mpr hlt, ?_⟩
  apply pid_ext
  · exact getClusterRank_setPid hcluster (by omega)
  · exact getProcessRank_setPid hcluster (by omega)

/-- The gateways of a cluster can leave the barrier for the world. -/
theorem worldBarrierComplete_of (hphase : ∀ pid, (s.application pid).atBarrier = true)
    (hleft : ∀ g ∈ gateways cfg k, 1 ≤ (s.gateway g).stage) :
    s.worldBarrierComplete cfg k = true := by
  rw [State.worldBarrierComplete, Bool.and_eq_true]
  refine ⟨List.all_eq_true.mpr fun pid _ => hphase pid, List.all_eq_true.mpr fun g hg => ?_⟩
  exact decide_eq_true (hleft g hg)

section Stuck

variable (hstuck : Stuck cfg order s)
include hstuck

/-- **All gateways have left the barrier for the world**, and asked. -/
theorem Stuck.asked (hanswering : Answering cfg s) (hk : k < cfg.numberOfClusters)
    (hbarrier : s.worldBarrierComplete cfg k = true)
    (hleft : ∀ g ∈ gateways cfg k, 1 ≤ (s.gateway g).stage) (hg : g ∈ gateways cfg k) :
    4 ≤ (s.gateway g).stage ∨ (g = master cfg k ∧ s.gateway g = .asked) := by
  have hstage := hleft g hg
  cases hplace : s.gateway g with
  | failed =>
      rw [hplace] at hstage
      cases hstage
  | loop done =>
      rw [hplace] at hstage
      cases hstage
  | worldBarrier =>
      have hgone := congrFun (congrArg State.gateway (hstuck (.startCleanup k g) ⟨hk, hg⟩)) g
      simp only [State.change, State.startCleanup, hplace, hbarrier, and_self, if_true,
        State.goTo, Function.update_self] at hgone
      cases hgone
  | cleanup =>
      by_cases hmaster : g = master cfg k
      · subst hmaster
        have hgone := congrFun (congrArg State.gateway (hstuck (.sendCloseLink k) hk))
          (master cfg k)
        simp only [State.change, State.sendCloseLink, hplace, if_true,
          Function.update_self] at hgone
        cases hgone
      · have hgone := congrFun (congrArg State.gateway (hstuck (.skipCloseLink k g) ⟨hk, hg⟩)) g
        have hcondition : g ≠ master cfg k ∧ s.gateway g = .cleanup := ⟨hmaster, hplace⟩
        rw [State.change, State.skipCloseLink, if_pos hcondition, State.goTo] at hgone
        simp only [Function.update_self, hplace] at hgone
        cases hgone
  | asked =>
      exact Or.inr ⟨hanswering.masterOnly k hk g hg hplace, rfl⟩
  | gatewayBarrier => exact Or.inl (Nat.le_refl 4)
  | disconnecting index => exact Or.inl (Nat.le_succ 4)

/-- **All clusters are done.** -/
theorem Stuck.stopped (hanswering : Answering cfg s) (hquiet : Quiet s)
    (hk : k < cfg.numberOfClusters) (hasked : 3 ≤ s.masterStage cfg k) :
    s.receiver k = .stopped := by
  rcases hstuck.receiver hk with hreading | hstopped
  · rcases hanswering.asked k hk hasked with hmem | hfinished
    · cases hlink : s.toServer k with
      | nil =>
          rw [hlink] at hmem
          cases hmem
      | cons x rest =>
          cases x with
          | request req =>
              refine absurd ?_ (hquiet.link k req)
              rw [hlink]
              exact List.mem_cons_self
          | closeLink =>
              have hgone := congrFun (congrArg State.receiver
                (hstuck (.receiveMessage k) hk)) k
              simp only [State.change, State.receiveMessage, hreading, hlink,
                Function.update_self] at hgone
              cases hgone
    · rw [hreading] at hfinished
      cases hfinished
  · exact hstopped

/-- **The links are closed.** -/
theorem Stuck.closed (hanswering : Answering cfg s) (hk : k < cfg.numberOfClusters)
    (hstopped : s.receiver k = .stopped) (hcount : cfg.numberOfClusters ≤ s.clustersDone) :
    s.sender k = .closed := by
  rcases hstuck.sender hk with hsending | ⟨_, hlt⟩ | hclosed
  · have hdone := hanswering.done k (by rw [hstopped]; rfl)
    rw [(hstuck.sending hk hsending).2] at hdone
    cases hdone
  · exact absurd hcount (Nat.not_le.mpr hlt)
  · exact hclosed

/-- **The master gateways are answered.** -/
theorem Stuck.answered (hanswering : Answering cfg s) (hk : k < cfg.numberOfClusters)
    (hclosed : s.sender k = .closed)
    (hasked : 4 ≤ s.masterStage cfg k ∨ s.gateway (master cfg k) = .asked) :
    4 ≤ s.masterStage cfg k := by
  rcases hasked with hstage | hplace
  · exact hstage
  · refine (hanswering.closed k hk (by rw [hclosed]; rfl)).resolve_left fun hmem => ?_
    obtain ⟨x, rest, hlink⟩ := List.exists_cons_of_ne_nil (List.ne_nil_of_mem hmem)
    have hgone := congrFun (congrArg State.gateway (hstuck (.receiveCloseLink k) hk))
      (master cfg k)
    simp only [State.change, State.receiveCloseLink, hplace, if_true, hlink,
      Function.update_self] at hgone
    cases hgone

/-- **The gateways have disconnected.** -/
theorem Stuck.disconnected (hk : k < cfg.numberOfClusters)
    (hbarrier : ∀ g ∈ gateways cfg k, 4 ≤ (s.gateway g).stage) (hg : g ∈ gateways cfg k) :
    ∃ index, cfg.numberOfClusters ≤ index ∧ s.gateway g = .disconnecting index := by
  have hstage := hbarrier g hg
  have hall : ((gateways cfg k).all fun g' => 4 ≤ (s.gateway g').stage) = true :=
    List.all_eq_true.mpr fun g' hg' => decide_eq_true (hbarrier g' hg')
  cases hplace : s.gateway g with
  | disconnecting index =>
      refine ⟨index, ?_, rfl⟩
      by_contra hlt
      have hgone := congrFun (congrArg State.gateway
        (hstuck (.disconnectGateway k g) ⟨hk, hg⟩)) g
      simp only [State.change, State.disconnectGateway, hplace, if_pos (Nat.not_le.mp hlt),
        State.goTo, Function.update_self, Place.disconnecting.injEq] at hgone
      exact absurd hgone (Nat.succ_ne_self index)
  | gatewayBarrier =>
      have hgone := congrFun (congrArg State.gateway
        (hstuck (.startDisconnecting k g) ⟨hk, hg⟩)) g
      simp only [State.change, State.startDisconnecting, hplace, hall, and_self, if_true,
        State.goTo, Function.update_self] at hgone
      cases hgone
  | _ => simp [hplace, Place.stage] at hstage

/-- **The processes have left the barrier.** -/
theorem Stuck.finished (hclients : ClientsOnly cfg s) (hphase : (s.application pid).atBarrier)
    (hbarrier : ∀ k < cfg.numberOfClusters, s.worldBarrierComplete cfg k = true) :
    s.application pid = .finished := by
  cases happlication : s.application pid with
  | finished => rfl
  | barrier =>
      have hpid := hclients pid (by rw [happlication]; simp)
      have hgone := congrFun (congrArg State.application
        (hstuck (.finish (getClusterRank pid) pid)
          ⟨hpid.cluster_lt, mem_applications hpid⟩)) pid
      simp only [State.change, State.finish, happlication, hbarrier _ hpid.cluster_lt, and_self,
        if_true, Function.update_self] at hgone
      cases hgone
  | _ =>
      rw [happlication] at hphase
      cases hphase

end Stuck

/-! ### All runs -/

/-- What every event keeps. -/
structure Ending (cfg : Server.Config) (s : State) : Prop where
  inv : Inv cfg s
  answering : Answering cfg s
  clients : ClientsOnly cfg s
  told : Told cfg s

theorem Ending.step (h : Ending cfg s) (e : Event) : Ending cfg (s.step cfg order e) := by
  obtain ⟨taken, hlinks⟩ := h.inv.links
  exact ⟨h.inv.step e, h.answering.step e, h.clients.step e,
    h.told.step h.clients h.inv.progress
      (fun k hk hasked x rest => hlinks.answer h.inv.progress hk hasked) e⟩

theorem ending_run (cfg : Server.Config) (order : Server.HashOrder) (events : List Event) :
    Ending cfg (run cfg order events) := by
  have hall : ∀ s, Ending cfg s → Ending cfg (events.foldl (State.step cfg order) s) := by
    induction events with
    | nil => exact fun s h => h
    | cons e events ih => exact fun s h => ih _ (h.step e)
  exact hall _ ⟨inv_start, answering_start, clientsOnly_start, told_start⟩

/-- The server has begun to carry out `FINALIZE`: it has freed the communicator of the world. -/
def Freed (s : State) : Prop := s.communicators[0]? = some none

/-- And the communicator is not brought back. -/
theorem After.freed_step (h : After cfg s k₀ rest) (hfreed : Freed s) (e : Event) :
    Freed (s.step cfg order e) := by
  unfold State.step
  split
  · cases e with
    | receiveMessage k =>
        simp only [State.change, State.receiveMessage]
        split
        · rename_i req _ _ hlink
          have hrequest := h.quiet.link k req
          rw [hlink] at hrequest
          exact absurd List.mem_cons_self hrequest
        · exact hfreed
        · exact hfreed
    | runJob k =>
        simp only [State.change, State.runJob]
        split
        · rename_i req job jobs hreceiver
          obtain rfl : k = k₀ := by
            by_contra hne
            have hidle := h.idle k hne
            rw [hreceiver] at hidle
            cases hidle
          have htelling := h.telling
          rw [hreceiver] at htelling
          cases htelling with
          | free _ =>
              have hlt : 0 < s.communicators.length := (List.getElem?_eq_some_iff.mp hfreed).1
              simp only [Job.run, Freed, Server.freeCommunicator]
              rw [List.getElem?_set_self hlt]
          | tell _ => exact hfreed
          | told hidle => cases hidle
        · exact hfreed
    | _ =>
        have hsame : ∀ s' : State, s'.communicators = s.communicators → Freed s' := by
          intro s' hs'
          rw [Freed, hs']
          exact hfreed
        refine hsame _ ?_
        simp only [State.change, State.call, State.messagingFinalize, State.receiveServerMessage,
          State.finish, State.receiveMpiServerRequest, State.writeServerMessage,
          State.readServerMessage, State.forwardServerMessage, State.receiveMpiServerReply,
          State.exitLoop, State.startCleanup, State.sendCloseLink, State.receiveCloseLink,
          State.skipCloseLink, State.startDisconnecting, State.disconnectGateway,
          State.enqueueReply, State.returnFromDelivery,
          State.clusterDone, State.dequeue, State.sendMessage, State.closeSocket, State.goTo]
        repeat' split
        all_goals rfl
  · exact hfreed

/-- **Where nothing can go on, everything is closed.** -/
theorem Ending.closed_of_stuck (h : Ending cfg s) (hfreed : Freed s)
    (hstuck : Stuck cfg order s) : Closed cfg s := by
  obtain ⟨k₀, rest, hafter⟩ := h.inv.progress.after_of_freed hfreed
  have htold := h.told hfreed
  have hphase := hstuck.atBarrier h.inv h.clients hafter.quiet htold
  have hleft : ∀ k < cfg.numberOfClusters, ∀ g ∈ gateways cfg k, 1 ≤ (s.gateway g).stage :=
    fun k hk g hg => hstuck.left h.inv htold hk hg
  have hbarrier : ∀ k < cfg.numberOfClusters, s.worldBarrierComplete cfg k = true :=
    fun k hk => worldBarrierComplete_of hphase (hleft k hk)
  have hasked := fun k hk g hg =>
    hstuck.asked (g := g) h.answering hk (hbarrier k hk) (hleft k hk) hg
  have hstopped : ∀ k < cfg.numberOfClusters, s.receiver k = .stopped := by
    intro k hk
    refine hstuck.stopped h.answering hafter.quiet hk ?_
    rw [State.masterStage]
    rcases hasked k hk _ (master_mem k) with hstage | ⟨_, hplace⟩
    · omega
    · rw [hplace]
      exact Nat.le_refl 3
  have hcount : cfg.numberOfClusters ≤ s.clustersDone := by
    rw [h.inv.chain.count, List.countP_eq_length.mpr, List.length_range]
    intro k hk
    rw [hstopped k (List.mem_range.mp hk)]
    rfl
  have hclosed : ∀ k < cfg.numberOfClusters, s.sender k = .closed :=
    fun k hk => hstuck.closed h.answering hk (hstopped k hk) hcount
  have hmaster : ∀ k < cfg.numberOfClusters, 4 ≤ s.masterStage cfg k := fun k hk =>
    hstuck.answered h.answering hk (hclosed k hk) ((hasked k hk _ (master_mem k)).imp_right And.right)
  refine ⟨fun pid => hstuck.finished h.clients (hphase pid) hbarrier,
    fun k hk => ⟨hstopped k hk, hclosed k hk⟩, fun k hk g hg => ?_⟩
  have hgateways : ∀ g ∈ gateways cfg k, 4 ≤ (s.gateway g).stage := by
    intro g hg
    rcases hasked k hk g hg with hstage | ⟨heq, _⟩
    · exact hstage
    · rw [heq]
      exact hmaster k hk
  obtain ⟨next, hnext, hplace⟩ := hstuck.disconnected hk hgateways hg
  refine ⟨by simp [hplace], fun index hindex hne => Or.inl ⟨next, hplace, by omega, ?_⟩⟩
  rwa [getClusterRank_gateway hk hg]

/-- **The closing comes to its end.**  Once the server has freed the communicator of the world,
every run is finite, with a bound for all of them, whatever order the processes, the gateways and
the threads take their steps in; and it ends with all processes finished, all sockets between the
clusters closed, and all links to the server closed.  As for `closes_in_order`, the processes and
gateways of a cluster are within the bound of `Server.Config.size_le`. -/
theorem closes (cfg : Server.Config) (order : Server.HashOrder) (events : List Event)
    (hfreed : Freed (run cfg order events)) :
    Endings.EndsIn (Moves cfg order) (Closed cfg) (run cfg order events) := by
  refine endsIn_of_measure (I := fun s => Ending cfg s ∧ Freed s) (μ := State.stepsLeft cfg)
    ⟨ending_run cfg order events, hfreed⟩ ?_ ?_
  · rintro s s' ⟨h, hfreed⟩ hmoves
    obtain ⟨k₀, rest, hafter⟩ := h.inv.progress.after_of_freed hfreed
    have hless := hafter.stepsLeft_lt hmoves
    obtain ⟨_, e, rfl⟩ := hmoves
    exact ⟨⟨h.step e, hafter.freed_step hfreed e⟩, hless⟩
  · rintro s ⟨h, hfreed⟩
    exact (stuck_or_moves cfg order s).imp_left (h.closed_of_stuck hfreed)

/-- The run of two clusters up to the freeing of the communicator. -/
theorem closes_pair : Endings.EndsIn (Moves .pair .insertion) (Closed .pair)
    (run .pair .insertion (closingEvents.take 10)) :=
  closes .pair .insertion (closingEvents.take 10) (by unfold Freed; decide +kernel)

end Closing

end EsalsaMpi
