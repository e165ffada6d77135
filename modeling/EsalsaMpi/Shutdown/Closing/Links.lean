import EsalsaMpi.Shutdown.Closing.Chain
import EsalsaMpi.Shutdown.Closing.Progress

/-!
# The way of the replies

What has been enqueued for a cluster is on one way: the queue of the cluster, the thread that
writes, the link, the queue of the master gateway, and what the master has taken from it
(`Links`).  The reply that lets the master out of its main loop is the last on this way, so that
behind it there is nothing (`Links.settled`), and what the master takes for the answer to
`CLOSE_LINK` is the answer.
-/

namespace EsalsaMpi

namespace Closing

open Server (CommunicatorRequest Reply Job)
open Queues

/-- The reply in a message of the server. -/
def ToMaster.reply? : ToMaster → Option Reply
  | .reply m => some m
  | .closeLink => none

/-- The reply that the thread is writing. -/
def Sender.held : Sender → List Reply
  | .writing m => [m]
  | _ => []

/-- The replies that have been written and not yet been taken. -/
def State.coming (s : State) (k : Nat) : List Reply :=
  s.serverQueueIn k ++ (s.toMaster k).filterMap ToMaster.reply?

/-- **The way of the replies**, if the master gateways have taken these. -/
structure Links (cfg : Server.Config) (s : State) (taken : Nat → List Reply) : Prop where
  path : ∀ k, s.enqueued k = taken k ++ s.coming k ++ (s.sender k).held ++ s.incoming k
  written : ∀ k, s.written k = (taken k ++ s.coming k).map ToMaster.reply ++
    if (s.sender k).hasClosed then [.closeLink] else []
  out : ∀ k < cfg.numberOfClusters, s.gateway (master cfg k) ≠ .loop false →
    ∃ m ∈ taken k, m.destination = master cfg k
  left : ∀ k < cfg.numberOfClusters, (s.sender k).hasLeft → s.incoming k = []
  own : ∀ k < cfg.numberOfClusters, s.replies (master cfg k) = []
  replies : ∀ g, ¬ cfg.IsApplication g → ∀ m ∈ s.replies g, m.body = .finalize
  alive : ∀ k < cfg.numberOfClusters, ∀ g ∈ gateways cfg k, s.gateway g ≠ .failed

variable {cfg : Server.Config} {order : Server.HashOrder} {s : State} {k : Nat} {g pid : Pid}
  {taken : Nat → List Reply}

/-! ### The last reply -/

/-- Every reply that is enqueued for a cluster is for a process of it. -/
theorem Progress.forCluster (h : Progress cfg s) (hk : k < cfg.numberOfClusters) {m : Reply}
    (hm : m ∈ s.enqueued k) : ForCluster cfg k m := by
  rcases h with h | ⟨k₀, rest, h⟩
  · obtain ⟨hcluster, happlication⟩ := h.enqueued k m hm
    exact ⟨hcluster, Or.inl happlication⟩
  · obtain ⟨l, hl, hothers⟩ := h.last k hk
    have hmem := List.mem_append_left
      (rest.filter fun m => getClusterRank m.destination = k) hm
    rw [hl] at hmem
    rcases List.mem_append.mp hmem with hmem | hmem
    · exact (hothers m hmem).2
    · rw [List.mem_singleton.mp hmem]
      exact ⟨getClusterRank_master hk, Or.inr rfl⟩

/-- An element in front of others is not the last. -/
theorem eq_nil_or_mem {α : Type} {a b l : List α} {x y : α} (h : a ++ x :: b = l ++ [y]) :
    b = [] ∨ x ∈ l := by
  rcases List.eq_nil_or_concat b with rfl | ⟨c, z, rfl⟩
  · exact Or.inl rfl
  · right
    rw [List.concat_eq_append, ← List.cons_append, ← List.append_assoc] at h
    rw [← (List.append_inj' h rfl).1]
    simp

/-- **Behind the reply for the master gateway** nothing is enqueued. -/
theorem Progress.last_of_mem (h : Progress cfg s) (hk : k < cfg.numberOfClusters)
    {before after : List Reply} {m : Reply} (henqueued : s.enqueued k = before ++ m :: after)
    (hm : m.destination = master cfg k) :
    after = [] ∧ ∃ k₀ rest, After cfg s k₀ rest ∧
      ∀ m ∈ rest, getClusterRank m.destination ≠ k := by
  rcases h with h | ⟨k₀, rest, h⟩
  · have hmem : m ∈ s.enqueued k := by
      rw [henqueued]
      simp
    exact absurd hm (ne_master hk (h.enqueued k m hmem).2)
  · obtain ⟨l, hl, hothers⟩ := h.last k hk
    rw [henqueued, List.append_assoc, List.cons_append] at hl
    rcases eq_nil_or_mem hl with hnil | hmem
    · obtain ⟨hafter, hrest⟩ := List.append_eq_nil_iff.mp hnil
      refine ⟨hafter, k₀, rest, h, fun m hm hcluster => ?_⟩
      exact absurd (List.filter_eq_nil_iff.mp hrest m hm) (by simp [hcluster])
    · exact absurd hm (hothers m hmem).1

/-- **A master gateway behind its main loop** has taken all replies, and no more will come. -/
theorem Links.settled (h : Links cfg s taken) (hprogress : Progress cfg s)
    (hk : k < cfg.numberOfClusters) (hleft : s.gateway (master cfg k) ≠ .loop false) :
    s.coming k = [] ∧ (s.sender k).held = [] ∧ s.incoming k = [] ∧
      ∃ k₀ rest, After cfg s k₀ rest ∧ ∀ m ∈ rest, getClusterRank m.destination ≠ k := by
  obtain ⟨m, hm, hdestination⟩ := h.out k hk hleft
  obtain ⟨before, after, htaken⟩ := List.append_of_mem hm
  have henqueued : s.enqueued k = before ++ m ::
      (after ++ (s.coming k ++ ((s.sender k).held ++ s.incoming k))) := by
    rw [h.path k, htaken]
    simp only [List.append_assoc, List.cons_append]
  obtain ⟨hnil, hafter⟩ := hprogress.last_of_mem hk henqueued hdestination
  obtain ⟨-, hnil⟩ := List.append_eq_nil_iff.mp hnil
  obtain ⟨hcoming, hnil⟩ := List.append_eq_nil_iff.mp hnil
  obtain ⟨hheld, hincoming⟩ := List.append_eq_nil_iff.mp hnil
  exact ⟨hcoming, hheld, hincoming, hafter⟩

/-- A gateway with a stage is not in its main loop. -/
theorem ne_loop_of_stage {place : Place} (h : 1 ≤ place.stage) : place ≠ .loop false := by
  rintro rfl
  exact absurd h (by decide)

/-- **What a master gateway takes for the answer** is the answer. -/
theorem Links.answer (h : Links cfg s taken) (hprogress : Progress cfg s)
    (hk : k < cfg.numberOfClusters) (hasked : s.gateway (master cfg k) = .asked) {x : ToMaster}
    {rest : List ToMaster} (hlink : s.toMaster k = x :: rest) : x = .closeLink := by
  have hcoming := (h.settled hprogress hk (by rw [hasked]; simp)).1
  have hnone := (List.append_eq_nil_iff.mp hcoming).2
  cases x with
  | closeLink => rfl
  | reply m =>
      rw [hlink, List.filterMap_cons] at hnone
      cases hnone

/-- A thread that has left its loop has a master gateway behind its main loop. -/
theorem Chain.ne_loop (h : Chain cfg s) (hk : k < cfg.numberOfClusters)
    (hleft : (s.sender k).hasLeft) : s.gateway (master cfg k) ≠ .loop false := by
  have hstage := h.receiver k hk (h.done k hk (h.sender k hk hleft))
  exact ne_loop_of_stage (Nat.le_trans (by decide) hstage)

/-! ### The gateways -/

/-- A gateway behind its main loop goes on. -/
theorem Links.goTo (h : Links cfg s taken) {place : Place} (hplace : place ≠ .failed)
    (hbefore : s.gateway g ≠ .loop false) : Links cfg (s.goTo g place) taken := by
  refine { h with out := fun k hk hleft => ?_, alive := fun k hk g' hg' => ?_ }
  · by_cases heq : master cfg k = g
    · exact h.out k hk (heq ▸ hbefore)
    · simp only [State.goTo, Function.update_of_ne heq] at hleft
      exact h.out k hk hleft
  · by_cases heq : g' = g
    · subst heq
      simpa only [State.goTo, Function.update_self] using hplace
    · simpa only [State.goTo, Function.update_of_ne heq] using h.alive k hk g' hg'

/-- The master gateway reads a reply. -/
theorem Links.readServerMessage (h : Links cfg s taken) :
    Links cfg (s.readServerMessage cfg k) taken := by
  unfold State.readServerMessage
  split
  · split
    · rename_i m rest hlink
      have hcoming : ∀ j, State.coming { s with
          toMaster := Function.update s.toMaster k rest
          serverQueueIn := push s.serverQueueIn k [m] } j = s.coming j := by
        intro j
        simp only [State.coming, push_apply]
        by_cases hj : j = k
        · subst hj
          rw [Function.update_self, hlink, if_pos rfl, List.filterMap_cons, List.append_assoc]
          rfl
        · rw [Function.update_of_ne hj, if_neg hj, List.append_nil]
      exact
        { h with
          path := fun j => by
            rw [hcoming]
            exact h.path j
          written := fun j => by
            rw [hcoming]
            exact h.written j }
    · exact h
  · exact h

/-- The master gateway receives the answer. -/
theorem Links.receiveCloseLink (h : Links cfg s taken) (hprogress : Progress cfg s)
    (hk : k < cfg.numberOfClusters) : Links cfg (s.receiveCloseLink cfg k) taken := by
  unfold State.receiveCloseLink
  split
  · rename_i hasked
    split
    · exact h
    · rename_i x rest hlink
      obtain rfl := h.answer hprogress hk hasked hlink
      have hgone : Links cfg (s.goTo (master cfg k) .gatewayBarrier) taken :=
        h.goTo (by simp) (by rw [hasked]; simp)
      have hcoming : ∀ j, State.coming { s with
          gateway := Function.update s.gateway (master cfg k) .gatewayBarrier
          toMaster := Function.update s.toMaster k rest } j = s.coming j := by
        intro j
        simp only [State.coming]
        by_cases hj : j = k
        · subst hj
          rw [Function.update_self, hlink, List.filterMap_cons]
          rfl
        · rw [Function.update_of_ne hj]
      exact
        { hgone with
          path := fun j => by
            rw [hcoming]
            exact h.path j
          written := fun j => by
            rw [hcoming]
            exact h.written j }
  · exact h

/-- The master gateway takes a reply. -/
theorem push_taken {m : Reply} {rest : List Reply}
    (hqueue : s.serverQueueIn k = m :: rest) :
    ∀ j, push taken k [m] j ++
      State.coming { s with serverQueueIn := Function.update s.serverQueueIn k rest } j =
        taken j ++ s.coming j := by
  intro j
  simp only [State.coming, push_apply]
  by_cases hj : j = k
  · subst hj
    rw [Function.update_self, hqueue, if_pos rfl]
    simp
  · rw [Function.update_of_ne hj, if_neg hj, List.append_nil]

/-- **The master gateway takes a reply**, its own or another's. -/
theorem Links.forwardServerMessage (h : Links cfg s taken) (hprogress : Progress cfg s)
    (hk : k < cfg.numberOfClusters) :
    ∃ taken', Links cfg (s.forwardServerMessage cfg k) taken' := by
  unfold State.forwardServerMessage
  split
  · split
    · exact ⟨taken, h⟩
    · rename_i m rest hqueue
      have hmem : m ∈ s.enqueued k := by
        rw [h.path k, State.coming, hqueue]
        simp
      obtain ⟨hcluster, hbody⟩ := hprogress.forCluster hk hmem
      have htake : ∀ j, push taken k [m] j ++ _ = taken j ++ s.coming j := push_taken hqueue
      have hnew : ∀ j, ∀ m' ∈ taken j, m' ∈ push taken k [m] j := fun j m' hm' =>
        mem_push.mpr (Or.inl hm')
      have hpath : ∀ j, s.enqueued j = push taken k [m] j ++
          State.coming { s with serverQueueIn := Function.update s.serverQueueIn k rest } j ++
            (s.sender j).held ++ s.incoming j := fun j => by rw [htake, ← h.path]
      have hwritten : ∀ j, s.written j = (push taken k [m] j ++
          State.coming { s with serverQueueIn := Function.update s.serverQueueIn k rest } j).map
            ToMaster.reply ++ if (s.sender j).hasClosed then [.closeLink] else [] :=
        fun j => by rw [htake, ← h.written]
      split
      · rename_i hown
        have hfinalize : m.body = .finalize := hbody.resolve_left fun happlication =>
          ne_master hk happlication hown
        rw [if_pos hfinalize]
        refine ⟨push taken k [m],
          { h with
            path := hpath, written := hwritten
            out := fun j hj hleft => ?_, alive := fun j hj g hg => ?_ }⟩
        · by_cases heq : j = k
          · subst heq
            exact ⟨m, mem_push.mpr (Or.inr ⟨rfl, List.mem_cons_self⟩), hown⟩
          · have hne : master cfg j ≠ master cfg k := fun hsame => heq <| by
              rw [← getClusterRank_master hj, hsame, getClusterRank_master hk]
            simp only [Function.update_of_ne hne] at hleft
            obtain ⟨m', hm', hdestination⟩ := h.out j hj hleft
            exact ⟨m', hnew j m' hm', hdestination⟩
        · by_cases heq : g = master cfg k
          · subst heq
            simp
          · simpa only [Function.update_of_ne heq] using h.alive j hj g hg
      · rename_i hother
        refine ⟨push taken k [m],
          { h with
            path := hpath, written := hwritten
            out := fun j hj hleft => ?_, own := fun j hj => ?_, replies := fun g hg m' hm' => ?_ }⟩
        · obtain ⟨m', hm', hdestination⟩ := h.out j hj hleft
          exact ⟨m', hnew j m' hm', hdestination⟩
        · have hne : master cfg j ≠ m.destination := by
            intro hsame
            obtain rfl : j = k := by
              rw [← getClusterRank_master hj, hsame, hcluster]
            exact hother hsame.symm
          simp only [push_apply, if_neg hne, List.append_nil]
          exact h.own j hj
        · rcases mem_push.mp hm' with hold | ⟨rfl, hlast⟩
          · exact h.replies g hg m' hold
          · rw [List.mem_singleton.mp hlast]
            exact hbody.resolve_left hg
  · exact ⟨taken, h⟩

/-- Another gateway receives its reply. -/
theorem Links.receiveMpiServerReply (h : Links cfg s taken) (hk : k < cfg.numberOfClusters)
    (hg : g ∈ gateways cfg k) : Links cfg (s.receiveMpiServerReply g) taken := by
  unfold State.receiveMpiServerReply
  split
  · split
    · exact h
    · rename_i m rest hreplies
      have hbody := h.replies g (not_isApplication_gateway hk hg) m
        (hreplies ▸ List.mem_cons_self)
      have hne : ∀ j < cfg.numberOfClusters, master cfg j ≠ g := by
        rintro j hj rfl
        rw [h.own j hj] at hreplies
        cases hreplies
      rw [if_pos hbody]
      refine
        { h with
          out := fun j hj hleft => ?_, own := fun j hj => ?_
          replies := fun g' hg' m' hm' => ?_, alive := fun j hj g' hg' => ?_ }
      · simp only [Function.update_of_ne (hne j hj)] at hleft
        exact h.out j hj hleft
      · simpa only [Function.update_of_ne (hne j hj)] using h.own j hj
      · exact h.replies g' hg' m' (mem_of_mem_update hreplies hm')
      · by_cases heq : g' = g
        · subst heq
          simp
        · simpa only [Function.update_of_ne heq] using h.alive j hj g' hg'
  · exact h

/-! ### The threads of the server -/

/-- A thread that enqueues for a cluster, whose sender is in its loop. -/
theorem Links.enqueueReply (h : Links cfg s taken) (hchain : Chain cfg s)
    (hprogress : Progress cfg s) : Links cfg (s.enqueueReply k) taken := by
  unfold State.enqueueReply
  split
  · rename_i req jobs m replies hreceiver
    refine { h with path := fun j => ?_, left := fun j hj hleft => ?_ }
    · show push s.enqueued (getClusterRank m.destination) [m] j =
        taken j ++ s.coming j ++ (s.sender j).held ++
          push s.incoming (getClusterRank m.destination) [m] j
      rw [push_apply, push_apply, h.path j, List.append_assoc _ (s.incoming j)]
    · obtain ⟨-, -, hincoming, k₀, rest, hafter, hrest⟩ :=
        h.settled hprogress hj (hchain.ne_loop hj hleft)
      have hother : j ≠ getClusterRank m.destination := by
        rintro rfl
        obtain rfl : k = k₀ := by
          by_contra hk
          have hidle := hafter.idle k hk
          rw [hreceiver] at hidle
          cases jobs <;> cases hidle
        have htelling := hafter.telling
        rw [hreceiver] at htelling
        cases htelling with
        | enqueue _ _ => exact hrest m List.mem_cons_self rfl
        | told hidle => cases jobs <;> cases hidle
      show push s.incoming (getClusterRank m.destination) [m] j = []
      rw [push_apply, if_neg hother, hincoming]
      rfl
  · exact h

/-- The thread takes a reply from its queue, or leaves its loop when there is none. -/
theorem Links.dequeue (h : Links cfg s taken) : Links cfg (s.dequeue k) taken := by
  unfold State.dequeue
  split
  · rename_i m rest hsender hincoming
    have hclosed : ∀ j, (Function.update s.sender k (.writing m) j).hasClosed =
        (s.sender j).hasClosed := by
      intro j
      by_cases hj : j = k
      · subst hj
        rw [Function.update_self, hsender]
        rfl
      · rw [Function.update_of_ne hj]
    refine { h with path := fun j => ?_, written := fun j => ?_, left := fun j hj hleft => ?_ }
    · show s.enqueued j = taken j ++ s.coming j ++
        (Function.update s.sender k (.writing m) j).held ++ Function.update s.incoming k rest j
      rw [h.path j]
      by_cases hj : j = k
      · subst hj
        rw [Function.update_self, Function.update_self, hsender, hincoming]
        simp [Sender.held]
      · rw [Function.update_of_ne hj, Function.update_of_ne hj]
    · simp only [hclosed]
      exact h.written j
    · by_cases heq : j = k
      · subst heq
        simp only [Function.update_self] at hleft
        cases hleft
      · simp only [Function.update_of_ne heq] at hleft ⊢
        exact h.left j hj hleft
  · rename_i hsender hincoming
    split
    · have hsame : ∀ j, (Function.update s.sender k .closing j).hasClosed =
          (s.sender j).hasClosed ∧
          (Function.update s.sender k .closing j).held = (s.sender j).held := by
        intro j
        by_cases hj : j = k
        · subst hj
          rw [Function.update_self, hsender]
          exact ⟨rfl, rfl⟩
        · rw [Function.update_of_ne hj]
          exact ⟨rfl, rfl⟩
      refine { h with path := fun j => ?_, written := fun j => ?_, left := fun j hj hleft => ?_ }
      · simp only [(hsame j).2]
        exact h.path j
      · simp only [(hsame j).1]
        exact h.written j
      · by_cases heq : j = k
        · subst heq
          exact hincoming
        · simp only [Function.update_of_ne heq] at hleft
          exact h.left j hj hleft
    · exact h
  · exact h

/-- The thread writes a reply. -/
theorem Links.sendMessage (h : Links cfg s taken) : Links cfg (s.sendMessage k) taken := by
  unfold State.sendMessage
  split
  · rename_i m hsender
    have hcoming : ∀ j, State.coming { s with
        sender := Function.update s.sender k .sending
        toMaster := push s.toMaster k [.reply m]
        written := push s.written k [.reply m] } j =
          s.coming j ++ if j = k then [m] else [] := by
      intro j
      simp only [State.coming, push_apply, List.filterMap_append, ← List.append_assoc]
      by_cases hj : j = k
      · simp [hj, ToMaster.reply?]
      · simp [hj]
    refine { h with path := fun j => ?_, written := fun j => ?_, left := fun j hj hleft => ?_ }
    · rw [hcoming, h.path j]
      by_cases hj : j = k
      · subst hj
        simp [hsender, Sender.held]
      · simp [hj]
    · rw [hcoming]
      show push s.written k [.reply m] j = _
      rw [push_apply, h.written j]
      by_cases hj : j = k
      · subst hj
        simp [hsender, Sender.hasClosed]
      · simp [hj]
    · by_cases heq : j = k
      · subst heq
        simp only [Function.update_self] at hleft
        cases hleft
      · simp only [Function.update_of_ne heq] at hleft
        exact h.left j hj hleft
  · exact h

/-- The thread writes the answer. -/
theorem Links.closeSocket (h : Links cfg s taken) : Links cfg (s.closeSocket cfg k) taken := by
  unfold State.closeSocket
  split
  · rename_i hsender
    split
    · exact h
    · have hcoming : ∀ j, State.coming { s with
          sender := Function.update s.sender k .closed
          toMaster := push s.toMaster k [.closeLink]
          written := push s.written k [.closeLink] } j = s.coming j := by
        intro j
        simp only [State.coming, push_apply, List.filterMap_append]
        by_cases hj : j = k
        · simp [hj, ToMaster.reply?]
        · simp [hj]
      refine { h with path := fun j => ?_, written := fun j => ?_, left := fun j hj hleft => ?_ }
      · rw [hcoming, h.path j]
        by_cases hj : j = k
        · subst hj
          simp [hsender, Sender.held]
        · simp [hj]
      · rw [hcoming]
        show push s.written k [.closeLink] j = _
        rw [push_apply, h.written j]
        by_cases hj : j = k
        · subst hj
          simp [hsender, Sender.hasClosed]
        · simp [hj]
      · by_cases heq : j = k
        · subst heq
          exact h.left j hj (by rw [hsender]; rfl)
        · simp only [Function.update_of_ne heq] at hleft
          exact h.left j hj hleft
  · exact h

end Closing

end EsalsaMpi
