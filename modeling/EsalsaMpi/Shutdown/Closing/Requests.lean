import EsalsaMpi.Shutdown.Closing.Jobs

/-!
# The requests of a run

A process sends nothing behind `FINALIZE`, and what it sends stays in order on its way to the
server (`State.outstanding`).  A `FINALIZE` that is stored at the server has therefore nothing of
its process behind it, and no thread works for that process.
-/

namespace EsalsaMpi

namespace Closing

open Server (CommunicatorRequest Reply Job)
open Queues

/-- The process has not called `messaging_finalize`. -/
def Phase.early : Phase → Bool
  | .running | .waiting => true
  | _ => false

/-- The request of a process on a link. -/
def ToServer.ofSource (pid : Pid) : ToServer → Option CommunicatorRequest
  | .request req => if req.source = pid then some req else none
  | .closeLink => none

/-- The requests of a process on their way, the oldest first. -/
def State.outstanding (s : State) (pid : Pid) : List CommunicatorRequest :=
  (s.toServer (getClusterRank pid)).filterMap (ToServer.ofSource pid) ++
    (s.serverQueueOut (getClusterRank pid)).filter (fun req => req.source = pid) ++ s.requests pid

/-- A request is stored for the world. -/
def State.Stored (s : State) (m : CommunicatorRequest) : Prop :=
  ∃ c, s.communicators[0]? = some (some c) ∧ some m ∈ c.messages

/-- What is on its way to the server. -/
structure RequestsInv (cfg : Server.Config) (s : State) : Prop where
  early : ∀ pid, (s.application pid).early → cfg.IsApplication pid
  requests : ∀ pid, ∀ req ∈ s.requests pid, req.source = pid ∧ Proper cfg req
  queue : ∀ k, ∀ req ∈ s.serverQueueOut k, getClusterRank req.source = k ∧ Proper cfg req
  link : ∀ k req, .request req ∈ s.toServer k → getClusterRank req.source = k ∧ Proper cfg req
  last : ∀ pid, ∀ req ∈ (s.outstanding pid).dropLast, req.operation ≠ .finalize
  before : ∀ pid, (s.application pid).early → ∀ req ∈ s.outstanding pid,
    req.operation ≠ .finalize

/-- A communicator of the server, under the number `n`. -/
structure CommunicatorInv (cfg : Server.Config) (n : Nat) (c : Server.Communicator) : Prop where
  number : c.number = n
  application : ∀ pid ∈ c.tables.members, cfg.IsApplication pid
  length : c.messages.length = c.tables.members.length
  participants : c.participants = c.messages.countP Option.isSome
  slot : ∀ (r : Nat) m, c.messages[r]? = some (some m) →
    m.rank = r ∧ m.communicator = n ∧ Proper cfg m

/-- A thread that works for a request. -/
structure WorkingInv (cfg : Server.Config) (s : State) (k : Nat) (req : CommunicatorRequest)
    (jobs : List Job) (replies : List Reply) : Prop where
  cluster : getClusterRank req.source = k
  proper : Proper cfg req
  finalize : req.operation = .finalize → jobs = [] ∧ replies = []
  unstored : req.operation ≠ .finalize → ∀ m, s.Stored m → m.operation = .finalize →
    m.source ≠ req.source
  jobs : ∀ job ∈ jobs, ForApplication cfg job
  replies : ∀ m ∈ replies, cfg.IsApplication m.destination

/-- What the server does with requests. -/
structure ServerInv (cfg : Server.Config) (s : State) : Prop where
  world : ∃ c, s.communicators[0]? = some (some c) ∧
    c.tables.members = Server.worldMembers cfg
  communicator : ∀ (n : Nat) c, s.communicators[n]? = some (some c) → CommunicatorInv cfg n c
  stored : ∀ m, s.Stored m → m.operation = .finalize →
    (s.application m.source).early = false ∧ s.outstanding m.source = []
  receiver : ∀ k req jobs replies, s.receiver k = .working req jobs replies →
    WorkingInv cfg s k req jobs replies

/-- The thread has read a request. -/
def State.read (cfg : Server.Config) (order : Server.HashOrder) (s : State) (k : Nat)
    (req : CommunicatorRequest) (rest : List ToServer) : State :=
  { s with
    communicators := (Server.admitRequest cfg order s.communicators req).1
    receiver := Function.update s.receiver k
      (.working req (Server.admitRequest cfg order s.communicators req).2 [])
    toServer := Function.update s.toServer k rest }

variable {cfg : Server.Config} {order : Server.HashOrder} {s : State} {k : Nat} {pid : Pid}
  {req : CommunicatorRequest}

/-! ### On the way to the server -/

/-- A process sends a request. -/
theorem outstanding_push (s : State) (pid : Pid) (req : CommunicatorRequest) (phase : Phase)
    (q : Pid) :
    State.outstanding { s with
        application := Function.update s.application pid phase
        requests := push s.requests pid [req] } q =
      s.outstanding q ++ if q = pid then [req] else [] := by
  simp only [State.outstanding, push_apply, List.append_assoc]

/-- The master gateway takes a request of a process of its cluster. -/
theorem outstanding_receiveMpiServerRequest {rest : List CommunicatorRequest}
    (hrequests : s.requests pid = req :: rest) (hsource : req.source = pid)
    (hcluster : getClusterRank pid = k) :
    State.outstanding { s with
        requests := Function.update s.requests pid rest
        serverQueueOut := push s.serverQueueOut k [req] } = s.outstanding := by
  funext q
  simp only [State.outstanding, push_apply, List.filter_append]
  by_cases hq : q = pid
  · subst hq
    rw [if_pos hcluster, Function.update_self, hrequests, List.filter_cons,
      if_pos (decide_eq_true hsource)]
    simp
  · have hother : ¬ req.source = q := fun heq => hq (heq.symm.trans hsource)
    rw [Function.update_of_ne hq]
    split
    · rw [List.filter_cons, if_neg (by simpa using hother)]
      simp
    · simp

/-- The master gateway writes a request. -/
theorem outstanding_writeServerMessage {rest : List CommunicatorRequest}
    (hqueue : s.serverQueueOut k = req :: rest) :
    State.outstanding { s with
        serverQueueOut := Function.update s.serverQueueOut k rest
        toServer := push s.toServer k [.request req] } = s.outstanding := by
  funext q
  simp only [State.outstanding, push_apply, List.filterMap_append]
  by_cases hq : getClusterRank q = k
  · rw [if_pos hq, hq, Function.update_self, hqueue, List.filter_cons, List.filterMap_cons,
      ToServer.ofSource]
    by_cases hsource : req.source = q
    · simp [hsource]
    · simp [hsource]
  · rw [if_neg hq, Function.update_of_ne hq]
    simp

/-- A thread of the server reads a request. -/
theorem outstanding_receiveMessage {rest : List ToServer}
    (hlink : s.toServer k = .request req :: rest) (hcluster : getClusterRank req.source = k)
    (communicators : Server.State) (receiver : Nat → Receiver) (q : Pid) :
    s.outstanding q = (if q = req.source then [req] else []) ++
      State.outstanding { s with
        communicators := communicators
        receiver := receiver
        toServer := Function.update s.toServer k rest } q := by
  simp only [State.outstanding]
  by_cases hq : getClusterRank q = k
  · rw [hq, Function.update_self, hlink, List.filterMap_cons, ToServer.ofSource]
    by_cases hsource : req.source = q
    · simp [hsource]
    · rw [if_neg hsource, if_neg fun heq => hsource heq.symm]
      simp
  · have hne : q ≠ req.source := fun heq => hq (heq ▸ hcluster)
    rw [Function.update_of_ne hq, if_neg hne, List.nil_append]

/-- A process that has not finalized sends another request. -/
theorem RequestsInv.send (h : RequestsInv cfg s) {phase : Phase}
    (hearly : (s.application pid).early) (hproper : Proper cfg req) (hsource : req.source = pid)
    (hphase : phase.early → req.operation ≠ .finalize) :
    RequestsInv cfg { s with
      application := Function.update s.application pid phase
      requests := push s.requests pid [req] } := by
  refine
    { h with
      early := fun q hq => ?_
      requests := fun q m hm => ?_
      last := fun q m hm => ?_
      before := fun q hq m hm => ?_ }
  · by_cases heq : q = pid
    · subst heq
      exact h.early q hearly
    · simp only [Function.update_of_ne heq] at hq
      exact h.early q hq
  · rcases mem_push.mp hm with hm | ⟨rfl, hmem⟩
    · exact h.requests q m hm
    · rw [List.mem_singleton.mp hmem]
      exact ⟨hsource, hproper⟩
  · rw [outstanding_push] at hm
    by_cases heq : q = pid
    · subst heq
      rw [if_pos rfl, List.dropLast_concat] at hm
      exact h.before q hearly m hm
    · rw [if_neg heq, List.append_nil] at hm
      exact h.last q m hm
  · rw [outstanding_push] at hm
    by_cases heq : q = pid
    · subst heq
      simp only [Function.update_self] at hq
      rw [if_pos rfl] at hm
      rcases List.mem_append.mp hm with hm | hm
      · exact h.before q hearly m hm
      · rw [List.mem_singleton.mp hm]
        exact hphase hq
    · simp only [Function.update_of_ne heq] at hq
      rw [if_neg heq, List.append_nil] at hm
      exact h.before q hq m hm

/-- A process goes on, but not back before `messaging_finalize`. -/
theorem RequestsInv.goOn (h : RequestsInv cfg s) {phase : Phase} {replies : Pid → List Reply}
    (hphase : phase.early → (s.application pid).early) :
    RequestsInv cfg { s with
      application := Function.update s.application pid phase
      replies := replies } := by
  have hearly : ∀ q, (Function.update s.application pid phase q).early →
      (s.application q).early := by
    intro q hq
    by_cases heq : q = pid
    · subst heq
      rw [Function.update_self] at hq
      exact hphase hq
    · rwa [Function.update_of_ne heq] at hq
  exact
    { h with
      early := fun q hq => h.early q (hearly q hq)
      before := fun q hq => h.before q (hearly q hq) }

theorem RequestsInv.receiveMpiServerRequest (h : RequestsInv cfg s) :
    RequestsInv cfg (s.receiveMpiServerRequest cfg k pid) := by
  unfold State.receiveMpiServerRequest
  split
  · rename_i hguard
    split
    · exact h
    · rename_i req rest hrequests
      obtain ⟨hsource, hproper⟩ := h.requests pid req (hrequests ▸ List.mem_cons_self)
      have hsame := outstanding_receiveMpiServerRequest hrequests hsource hguard.2
      refine
        { h with
          requests := fun q m hm => ?_
          queue := fun k' m hm => ?_
          last := fun q m hm => h.last q m (congrFun hsame q ▸ hm)
          before := fun q hq m hm => h.before q hq m (congrFun hsame q ▸ hm) }
      · by_cases heq : q = pid
        · subst heq
          simp only [Function.update_self] at hm
          exact h.requests q m (hrequests ▸ List.mem_cons_of_mem _ hm)
        · simp only [Function.update_of_ne heq] at hm
          exact h.requests q m hm
      · rcases mem_push.mp hm with hm | ⟨rfl, hmem⟩
        · exact h.queue k' m hm
        · rw [List.mem_singleton.mp hmem, hsource]
          exact ⟨hguard.2, hproper⟩
  · exact h

theorem RequestsInv.writeServerMessage (h : RequestsInv cfg s) :
    RequestsInv cfg (s.writeServerMessage cfg k) := by
  unfold State.writeServerMessage
  split
  · split
    · exact h
    · rename_i req rest hqueue
      have hsame := outstanding_writeServerMessage hqueue
      refine
        { h with
          queue := fun k' m hm => ?_
          link := fun k' m hm => ?_
          last := fun q m hm => h.last q m (congrFun hsame q ▸ hm)
          before := fun q hq m hm => h.before q hq m (congrFun hsame q ▸ hm) }
      · by_cases heq : k' = k
        · subst heq
          simp only [Function.update_self] at hm
          exact h.queue k' m (hqueue ▸ List.mem_cons_of_mem _ hm)
        · simp only [Function.update_of_ne heq] at hm
          exact h.queue k' m hm
      · rcases mem_push.mp hm with hm | ⟨rfl, hmem⟩
        · exact h.link k' m hm
        · cases List.mem_singleton.mp hmem
          exact h.queue k' req (hqueue ▸ List.mem_cons_self)
  · exact h

/-! ### At the server -/

/-- The threads of the server do not look at the processes. -/
theorem ServerInv.clients (h : ServerInv cfg s) {s' : State}
    (hcommunicators : s'.communicators = s.communicators) (hreceiver : s'.receiver = s.receiver)
    (hstored : ∀ q, (s.application q).early = false → s.outstanding q = [] →
      (s'.application q).early = false ∧ s'.outstanding q = []) : ServerInv cfg s' := by
  have hsame : ∀ m, s'.Stored m ↔ s.Stored m := fun m => by
    simp only [State.Stored, hcommunicators]
  refine
    { world := hcommunicators ▸ h.world
      communicator := hcommunicators ▸ h.communicator
      stored := fun m hm hop => ?_
      receiver := fun k req jobs replies hworking => ?_ }
  · obtain ⟨hearly, houtstanding⟩ := h.stored m ((hsame m).mp hm) hop
    exact hstored _ hearly houtstanding
  · have hold := h.receiver k req jobs replies (hreceiver ▸ hworking)
    exact
      { hold with
        unstored := fun hop m hm => hold.unstored hop m ((hsame m).mp hm) }

/-- A stored request, in its slot. -/
theorem State.Stored.slot {m : CommunicatorRequest} (hm : s.Stored m) :
    ∃ (c : Server.Communicator) (r : Nat),
      s.communicators[0]? = some (some c) ∧ c.messages[r]? = some (some m) := by
  obtain ⟨c, hc, hmem⟩ := hm
  obtain ⟨r, hr⟩ := List.getElem?_of_mem hmem
  exact ⟨c, r, hc, hr⟩

/-- A free slot is filled. -/
theorem CommunicatorInv.store {n : Nat} {c : Server.Communicator} (h : CommunicatorInv cfg n c)
    (hfree : c.messages[req.rank]? = some none) (hproper : Proper cfg req)
    (hnumber : req.communicator = n) : CommunicatorInv cfg n (c.store req) where
  number := h.number
  application := h.application
  length := by
    rw [Server.Communicator.store, List.length_set]
    exact h.length
  participants := by
    obtain ⟨hlt, hslot⟩ := List.getElem?_eq_some_iff.mp hfree
    simp [Server.Communicator.store, List.countP_set, hlt, hslot, h.participants]
  slot := by
    intro r m hm
    by_cases hr : r = req.rank
    · have hlt := (List.getElem?_eq_some_iff.mp hfree).1
      have heq : req = m := by simpa [Server.Communicator.store, hr, hlt] using hm
      subst heq
      exact ⟨hr.symm, hnumber, hproper⟩
    · rw [Server.Communicator.store, List.getElem?_set_ne (Ne.symm hr)] at hm
      exact h.slot r m hm

/-- The slots are emptied. -/
theorem CommunicatorInv.reset {n : Nat} {c : Server.Communicator} (h : CommunicatorInv cfg n c) :
    CommunicatorInv cfg n c.reset where
  number := h.number
  application := h.application
  length := List.length_replicate
  participants := by simp [Server.Communicator.reset, List.countP_replicate]
  slot r m hm := by
    have hmem := List.mem_of_getElem? hm
    exact absurd (List.eq_of_mem_replicate hmem) (by simp)

/-- A new communicator. -/
theorem CommunicatorInv.fresh {n : Nat} {pids : List Pid}
    (hpids : ∀ pid ∈ pids, cfg.IsApplication pid) :
    CommunicatorInv cfg n (Server.Communicator.fresh n (Server.tablesSpec pids)) where
  number := rfl
  application := hpids
  length := List.length_replicate
  participants := by simp [Server.Communicator.fresh, List.countP_replicate]
  slot r m hm := by
    have hmem := List.mem_of_getElem? hm
    exact absurd (List.eq_of_mem_replicate hmem) (by simp)

/-- All slots of a communicator with all participants are full. -/
theorem CommunicatorInv.full {n : Nat} {c : Server.Communicator} (h : CommunicatorInv cfg n c)
    (hfull : c.participants = c.size) : ∀ slot ∈ c.messages, slot.isSome := by
  apply List.countP_eq_length.mp
  rw [← h.participants, hfull, h.length]
  rfl

/-- The requests in the slots. -/
theorem CommunicatorInv.mem_requests {n : Nat} {c : Server.Communicator}
    (h : CommunicatorInv cfg n c) {m : CommunicatorRequest} (hm : m ∈ c.requests) :
    some m ∈ c.messages ∧ m.communicator = n ∧ Proper cfg m ∧
      m.rank < c.tables.members.length := by
  obtain ⟨slot, hslot, heq⟩ := List.mem_filterMap.mp hm
  obtain rfl : slot = some m := heq
  obtain ⟨r, hr⟩ := List.getElem?_of_mem hslot
  obtain ⟨hrank, hnumber, hproper⟩ := h.slot r m hr
  refine ⟨hslot, hnumber, hproper, ?_⟩
  rw [hrank, ← h.length]
  exact (List.getElem?_eq_some_iff.mp hr).1

/-- **A job** for the application leaves the requests of the world alone. -/
theorem ServerInv.run (h : ServerInv cfg s) {job : Job} (hjob : ForApplication cfg job)
    {communicators : Server.State} {replies : List Reply}
    (hrun : job.run cfg s.communicators = some (communicators, replies)) :
    communicators[0]? = s.communicators[0]? ∧
      (∀ (n : Nat) c, communicators[n]? = some (some c) → CommunicatorInv cfg n c) ∧
      ∀ m ∈ replies, cfg.IsApplication m.destination := by
  cases job with
  | create pids tell =>
      obtain ⟨hpids, htell⟩ := hjob
      rw [Job.run, Server.createCommunicator_eq _ hpids] at hrun
      simp only [Option.map_some, Option.some.injEq, Prod.mk.injEq] at hrun
      obtain ⟨rfl, rfl⟩ := hrun
      obtain ⟨world, hworld, _⟩ := h.world
      have hlt := (List.getElem?_eq_some_iff.mp hworld).1
      refine ⟨List.getElem?_append_left hlt, fun n c hc => ?_, fun m hm => ?_⟩
      · by_cases hn : n < s.communicators.length
        · rw [List.getElem?_append_left hn] at hc
          exact h.communicator n c hc
        · obtain ⟨rfl, rfl⟩ : n = s.communicators.length ∧
              c = Server.Communicator.fresh s.communicators.length (Server.tablesSpec pids) := by
            have hn' := (List.getElem?_eq_some_iff.mp hc).1
            rw [List.length_append, List.length_singleton] at hn'
            obtain rfl : n = s.communicators.length := by omega
            rw [List.getElem?_concat_length] at hc
            simp only [Option.some.injEq] at hc
            exact ⟨rfl, hc.symm⟩
          exact .fresh hpids
      · exact htell _ rfl m (List.mem_filter.mp hm).1
  | tell tell =>
      rw [Job.run] at hrun
      simp only [Option.some.injEq, Prod.mk.injEq] at hrun
      obtain ⟨rfl, rfl⟩ := hrun
      exact ⟨rfl, h.communicator, fun m hm => hjob m (List.mem_filter.mp hm).1⟩
  | free number => exact hjob.elim

/-- A thread goes on with its work. -/
theorem ServerInv.work (h : ServerInv cfg s) {receiver : Receiver}
    {communicators : Server.State}
    (hworld : communicators[0]? = s.communicators[0]?)
    (hcommunicator : ∀ (n : Nat) c, communicators[n]? = some (some c) → CommunicatorInv cfg n c)
    (hreceiver : ∀ req jobs replies, receiver = .working req jobs replies →
      WorkingInv cfg s k req jobs replies) :
    ServerInv cfg { s with
      communicators := communicators
      receiver := Function.update s.receiver k receiver } := by
  have hsame : ∀ m, State.Stored { s with
      communicators := communicators
      receiver := Function.update s.receiver k receiver } m ↔ s.Stored m := fun m => by
    simp only [State.Stored, hworld]
  refine
    { world := by simpa only [hworld] using h.world
      communicator := hcommunicator
      stored := fun m hm hop => h.stored m ((hsame m).mp hm) hop
      receiver := fun k' req jobs replies hworking => ?_ }
  have hold : WorkingInv cfg s k' req jobs replies := by
    by_cases heq : k' = k
    · subst heq
      simp only [Function.update_self] at hworking
      exact hreceiver req jobs replies hworking
    · simp only [Function.update_of_ne heq] at hworking
      exact h.receiver k' req jobs replies hworking
  exact
    { hold with
      unstored := fun hop m hm => hold.unstored hop m ((hsame m).mp hm) }

/-! ### A request is read -/

/-- A request on a link is on its way. -/
theorem RequestsInv.outstanding_ne_nil (h : RequestsInv cfg s) {rest : List ToServer}
    (hlink : s.toServer k = .request req :: rest) : s.outstanding req.source ≠ [] := by
  obtain ⟨hcluster, _⟩ := h.link k req (hlink ▸ List.mem_cons_self)
  rw [State.outstanding, hcluster, hlink, List.filterMap_cons, ToServer.ofSource, if_pos rfl]
  exact List.cons_ne_nil _ _

/-- What a thread has read was the first of the requests of its process. -/
theorem RequestsInv.read (h : RequestsInv cfg s) {rest : List ToServer}
    (hlink : s.toServer k = .request req :: rest) :
    RequestsInv cfg (s.read cfg order k req rest) ∧
      (∀ q, s.outstanding q = [] → (s.read cfg order k req rest).outstanding q = []) ∧
      (req.operation = .finalize → (s.application req.source).early = false ∧
        (s.read cfg order k req rest).outstanding req.source = []) := by
  obtain ⟨hcluster, _⟩ := h.link k req (hlink ▸ List.mem_cons_self)
  have hsplit : ∀ q, s.outstanding q =
      (if q = req.source then [req] else []) ++ (s.read cfg order k req rest).outstanding q :=
    outstanding_receiveMessage hlink hcluster _ _
  have hsub : ∀ q, ∀ m ∈ (s.read cfg order k req rest).outstanding q, m ∈ s.outstanding q := by
    intro q m hm
    rw [hsplit]
    exact List.mem_append_right _ hm
  have hself : s.outstanding req.source =
      req :: (s.read cfg order k req rest).outstanding req.source := by
    rw [hsplit, if_pos rfl]
    rfl
  refine ⟨{ h with link := ?_, last := ?_, before := ?_ }, ?_, ?_⟩
  · intro k' m hm
    exact h.link k' m (mem_of_mem_update hlink hm)
  · intro q m hm
    apply h.last q m
    rw [hsplit]
    split
    · cases hrest : (s.read cfg order k req rest).outstanding q with
      | nil =>
          rw [hrest] at hm
          cases hm
      | cons m' ms =>
          rw [List.singleton_append, List.dropLast_cons_cons, ← hrest]
          exact List.mem_cons_of_mem _ hm
    · exact hm
  · intro q hq m hm
    exact h.before q hq m (hsub q m hm)
  · intro q hq
    exact List.eq_nil_iff_forall_not_mem.mpr fun m hm => by
      have hmem := hsub q m hm
      rw [hq] at hmem
      cases hmem
  · intro hop
    constructor
    · by_contra hearly
      exact h.before _ (by simpa using hearly) req (hself ▸ List.mem_cons_self) hop
    · by_contra hne
      refine h.last req.source req ?_ hop
      obtain ⟨m, ms, hrest⟩ := List.exists_cons_of_ne_nil hne
      rw [hself, hrest, List.dropLast_cons_cons]
      exact List.mem_cons_self

end Closing

end EsalsaMpi
