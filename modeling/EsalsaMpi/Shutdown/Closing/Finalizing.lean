import EsalsaMpi.Shutdown.Closing.Requests

/-!
# The last operation

Before the server carries out `FINALIZE`, its replies are for application processes
(`ServerInv`).  When it does, no process has a request on its way, and no other thread of the
server has anything to do (`ServerInv.read`): what is left to enqueue are the replies to
`FINALIZE` (`After`), and in the queue of each cluster the last one is for its master gateway.
-/

namespace EsalsaMpi

namespace Closing

open Server (CommunicatorRequest Reply Job)
open Queues

/-- A thread with nothing to do for a request. -/
def Receiver.idle : Receiver → Bool
  | .working _ (_ :: _) _ => false
  | .working _ _ (_ :: _) => false
  | _ => true

variable {cfg : Server.Config} {order : Server.HashOrder} {s : State} {k : Nat} {pid : Pid}
  {req : CommunicatorRequest} {rest : List ToServer}

theorem finalizeJobs_eq {c : Server.Communicator} (hnumber : c.number = 0)
    (hmembers : c.tables.members = Server.worldMembers cfg) :
    c.finalizeJobs cfg = [.free 0, .tell (finalizeReplies cfg)] := by
  rw [Server.Communicator.finalizeJobs, if_pos hnumber, hmembers]
  rfl

/-- Another version of a communicator. -/
theorem ServerInv.set (h : ServerInv cfg s) {n : Nat} {c c' : Server.Communicator}
    (hc : s.communicators[n]? = some (some c)) (htables : c'.tables = c.tables)
    (hinv : CommunicatorInv cfg n c') :
    (∃ c, (s.communicators.set n (some c'))[0]? = some (some c) ∧
        c.tables.members = Server.worldMembers cfg) ∧
      ∀ (n' : Nat) c, (s.communicators.set n (some c'))[n']? = some (some c) →
        CommunicatorInv cfg n' c := by
  have hlt := (List.getElem?_eq_some_iff.mp hc).1
  obtain ⟨world, hworld, hmembers⟩ := h.world
  constructor
  · by_cases hn : n = 0
    · subst hn
      rw [hworld] at hc
      cases hc
      exact ⟨c', List.getElem?_set_self hlt, htables ▸ hmembers⟩
    · exact ⟨world, by rw [List.getElem?_set_ne hn, hworld], hmembers⟩
  · intro n' c'' hc''
    by_cases hn : n' = n
    · subst hn
      rw [List.getElem?_set_self hlt] at hc''
      cases hc''
      exact hinv
    · rw [List.getElem?_set_ne (Ne.symm hn)] at hc''
      exact h.communicator n' c'' hc''

/-- What is stored after a request has been read. -/
theorem ServerInv.of_stored_read (h : ServerInv cfg s) {m : CommunicatorRequest}
    (hm : (s.read cfg order k req rest).Stored m) : s.Stored m ∨ m = req := by
  obtain ⟨c, hc, hmem⟩ := hm
  have hother : ∀ {c₁ c₂ : Server.Communicator},
      s.communicators[req.communicator]? = some (some c₁) →
      (s.communicators.set c₁.number (some c₂))[0]? = some (some c) →
      (∀ m, some m ∈ c₂.messages → some m ∈ c₁.messages ∨ m = req) → s.Stored m ∨ m = req := by
    intro c₁ c₂ hc₁ hset hsub
    have hnumber := (h.communicator _ _ hc₁).number
    have hlt := (List.getElem?_eq_some_iff.mp hc₁).1
    by_cases hzero : req.communicator = 0
    · rw [hnumber, hzero, List.getElem?_set_self (hzero ▸ hlt)] at hset
      cases hset
      rcases hsub m hmem with hmem | heq
      · exact Or.inl ⟨c₁, hzero ▸ hc₁, hmem⟩
      · exact Or.inr heq
    · rw [hnumber, List.getElem?_set_ne hzero] at hset
      exact Or.inl ⟨c, hset, hmem⟩
  rcases @Server.admitRequest_cases cfg order s.communicators req with
    heq | ⟨c₁, hc₁, hfree, ⟨-, heq⟩ | ⟨-, heq⟩⟩
  · rw [State.read, heq] at hc
    exact Or.inl ⟨c, hc, hmem⟩
  · rw [State.read, heq] at hc
    refine hother hc₁ hc fun m hm => ?_
    rcases List.mem_or_eq_of_mem_set hm with hm | hm
    · exact Or.inl hm
    · exact Or.inr (Option.some.inj hm)
  · rw [State.read, heq] at hc
    refine hother hc₁ hc fun m hm => ?_
    exact absurd (List.eq_of_mem_replicate hm) (by simp)

/-- Every member of the world has a `FINALIZE` among the requests of the last operation. -/
theorem CommunicatorInv.exists_finalize {c : Server.Communicator} (h : CommunicatorInv cfg 0 c)
    (hmembers : c.tables.members = Server.worldMembers cfg) (hfull : c.participants = c.size)
    (hall : ∀ m ∈ c.requests, m.operation = .finalize) (hpid : cfg.IsApplication pid) :
    ∃ m, some m ∈ c.messages ∧ m.operation = .finalize ∧ m.source = pid := by
  obtain ⟨r, hr⟩ := List.getElem?_of_mem (Server.mem_worldMembers.mpr hpid)
  have hlt : r < c.messages.length := by
    rw [h.length, hmembers]
    exact (List.getElem?_eq_some_iff.mp hr).1
  have hsome := h.full hfull _ (List.getElem_mem hlt)
  obtain ⟨m, hm⟩ := Option.isSome_iff_exists.mp hsome
  have hslot : c.messages[r]? = some (some m) := by rw [List.getElem?_eq_getElem hlt, hm]
  obtain ⟨hrank, -, hproper⟩ := h.slot r m hslot
  have hmem : some m ∈ c.messages := List.mem_of_getElem? hslot
  have hfinalize := hall m (List.mem_filterMap.mpr ⟨some m, hmem, rfl⟩)
  obtain ⟨-, hsource⟩ := hproper.finalize hfinalize
  rw [hrank, hr] at hsource
  exact ⟨m, hmem, hfinalize, (Option.some.inj hsource).symm⟩

/-- Nothing of a finalized process is on its way, and what it has sent last is stored. -/
theorem ServerInv.not_stored_source (h : ServerInv cfg s) (hr : RequestsInv cfg s)
    (hlink : s.toServer k = .request req :: rest) {m : CommunicatorRequest} (hm : s.Stored m)
    (hop : m.operation = .finalize) : m.source ≠ req.source := by
  intro heq
  exact hr.outstanding_ne_nil hlink (heq ▸ (h.stored m hm hop).2)

/-- A thread has read a request, and has at most jobs for the application. -/
theorem ServerInv.keep (h : ServerInv cfg s) (hr : RequestsInv cfg s)
    (hlink : s.toServer k = .request req :: rest)
    (hset : (∃ c, (s.read cfg order k req rest).communicators[0]? = some (some c) ∧
        c.tables.members = Server.worldMembers cfg) ∧
      ∀ (n : Nat) c, (s.read cfg order k req rest).communicators[n]? = some (some c) →
        CommunicatorInv cfg n c)
    (hjobs : ∀ job ∈ (Server.admitRequest cfg order s.communicators req).2,
      ForApplication cfg job)
    (hfinalize : req.operation = .finalize →
      (Server.admitRequest cfg order s.communicators req).2 = []) :
    ServerInv cfg (s.read cfg order k req rest) := by
  obtain ⟨hcluster, hproper⟩ := hr.link k req (hlink ▸ List.mem_cons_self)
  have hread : RequestsInv cfg (s.read cfg order k req rest) ∧ _ := hr.read hlink
  obtain ⟨-, hempty, hlast⟩ := hread
  refine ⟨hset.1, hset.2, fun m hm hop => ?_, fun k' req' jobs replies hworking => ?_⟩
  · rcases h.of_stored_read hm with hm | rfl
    · obtain ⟨hearly, hout⟩ := h.stored m hm hop
      exact ⟨hearly, hempty _ hout⟩
    · exact hlast hop
  · by_cases hk : k' = k
    · subst hk
      simp only [State.read, Function.update_self] at hworking
      cases hworking
      refine
        { cluster := hcluster
          proper := hproper
          finalize := fun hop => ⟨hfinalize hop, rfl⟩
          unstored := fun hop m hm hfinal => ?_
          jobs := hjobs
          replies := fun m hm => absurd hm List.not_mem_nil }
      rcases h.of_stored_read hm with hm | rfl
      · exact h.not_stored_source hr hlink hm hfinal
      · exact absurd hfinal hop
    · simp only [State.read, Function.update_of_ne hk] at hworking
      have hold := h.receiver k' req' jobs replies hworking
      refine { hold with unstored := fun hop m hm hfinal => ?_ }
      rcases h.of_stored_read hm with hm | rfl
      · exact hold.unstored hop m hm hfinal
      · intro heq
        exact hk (hold.cluster.symm.trans (heq ▸ hcluster))

/-- A thread that works when every process has finalized has nothing to do. -/
theorem ServerInv.idle (h : ServerInv cfg s) {k' : Nat}
    (hall : ∀ pid, cfg.IsApplication pid → getClusterRank pid = k' →
      ∃ m, s.Stored m ∧ m.operation = .finalize ∧ m.source = pid) :
    (s.receiver k').idle := by
  cases hreceiver : s.receiver k' with
  | working req jobs replies =>
      have hworking := h.receiver k' req jobs replies hreceiver
      by_cases hop : req.operation = .finalize
      · obtain ⟨rfl, rfl⟩ := hworking.finalize hop
        rfl
      · obtain ⟨m, hm, hfinal, hsource⟩ :=
          hall req.source hworking.proper.application hworking.cluster
        exact absurd hsource (hworking.unstored hop m hm hfinal)
  | reading => rfl
  | finishing => rfl
  | stopped => rfl

/-- **A request is read.**  Either nothing is new, or it is the last `FINALIZE`: then no process
has a request on its way, and no other thread has anything to do. -/
theorem ServerInv.read (h : ServerInv cfg s) (hr : RequestsInv cfg s)
    (hlink : s.toServer k = .request req :: rest) :
    ServerInv cfg (s.read cfg order k req rest) ∨
      (Server.admitRequest cfg order s.communicators req).2 =
          [.free 0, .tell (finalizeReplies cfg)] ∧
        (∀ pid, cfg.IsApplication pid → (s.application pid).early = false ∧
          (s.read cfg order k req rest).outstanding pid = []) ∧
        ∀ k' ≠ k, (s.receiver k').idle := by
  obtain ⟨hcluster, hproper⟩ := hr.link k req (hlink ▸ List.mem_cons_self)
  rcases @Server.admitRequest_cases cfg order s.communicators req with
    heq | ⟨c, hc, hfree, ⟨-, heq⟩ | ⟨hfull, heq⟩⟩
  · refine Or.inl (h.keep hr hlink ?_ ?_ ?_)
    · rw [State.read, heq]
      exact ⟨h.world, h.communicator⟩
    · rw [heq]
      exact fun job hjob => absurd hjob List.not_mem_nil
    · rw [heq]
      exact fun _ => rfl
  · have hold := h.communicator _ _ hc
    refine Or.inl (h.keep hr hlink ?_ ?_ ?_)
    · rw [State.read, heq, hold.number]
      exact h.set hc rfl (hold.store hfree hproper rfl)
    · rw [heq]
      exact fun job hjob => absurd hjob List.not_mem_nil
    · rw [heq]
      exact fun _ => rfl
  · have hold := h.communicator _ _ hc
    have hstore := hold.store hfree hproper rfl
    have hstored : some req ∈ (c.store req).messages :=
      List.mem_set (List.getElem?_eq_some_iff.mp hfree).1 _
    have hself : req ∈ (c.store req).requests := List.mem_filterMap.mpr ⟨_, hstored, rfl⟩
    have hcases : (∀ job ∈ (c.store req).jobs cfg order (c.store req).requests,
        ForApplication cfg job) ∧ _ ∨ _ :=
      jobs_cases hstore.application (fun m hm => (hstore.mem_requests hm).2.2.1)
        fun m hm => (hstore.mem_requests hm).2.2.2
    rcases hcases with ⟨hjobs, hnone⟩ | ⟨hall, hjobs⟩
    · refine Or.inl (h.keep hr hlink ?_ ?_ ?_)
      · rw [State.read, heq, hold.number]
        exact h.set hc rfl hstore.reset
      · rw [heq]
        exact hjobs
      · rw [heq]
        exact fun hop => hnone ⟨req, hself, hop⟩
    · have hop := hall req hself
      have hzero := (hproper.finalize hop).1
      obtain ⟨world, hworld, hmembers⟩ := h.world
      rw [hzero] at hc hold hstore
      rw [hworld] at hc
      cases hc
      have hread : RequestsInv cfg (s.read cfg order k req rest) ∧ _ := hr.read hlink
      obtain ⟨-, hempty, hlast⟩ := hread
      have hfinalized : ∀ pid, cfg.IsApplication pid → pid ≠ req.source →
          ∃ m, s.Stored m ∧ m.operation = .finalize ∧ m.source = pid := by
        intro pid hpid hne
        obtain ⟨m, hm, hfinal, hsource⟩ := hstore.exists_finalize hmembers hfull hall hpid
        rcases List.mem_or_eq_of_mem_set hm with hm | hm
        · exact ⟨m, ⟨c, hworld, hm⟩, hfinal, hsource⟩
        · exact absurd (Option.some.inj hm ▸ hsource) (Ne.symm hne)
      refine Or.inr ⟨?_, fun pid hpid => ?_, fun k' hk' => h.idle fun pid hpid hcluster' => ?_⟩
      · rw [heq, hjobs]
        exact finalizeJobs_eq hold.number hmembers
      · by_cases hne : pid = req.source
        · subst hne
          exact hlast hop
        · obtain ⟨m, hm, hfinal, rfl⟩ := hfinalized pid hpid hne
          obtain ⟨hearly, hout⟩ := h.stored m hm hfinal
          exact ⟨hearly, hempty _ hout⟩
      · refine hfinalized pid hpid fun hsource => hk' ?_
        rw [← hcluster', hsource, hcluster]

/-! ### Before and after -/

/-- No process has a request on its way, and none will have one. -/
structure Quiet (s : State) : Prop where
  early : ∀ pid, (s.application pid).early = false
  requests : ∀ pid, s.requests pid = []
  queue : ∀ k, s.serverQueueOut k = []
  link : ∀ k req, .request req ∉ s.toServer k

/-- A message for a process of this cluster; what is not for an application process is a reply
to `FINALIZE`. -/
def ForCluster (cfg : Server.Config) (k : Nat) (m : Reply) : Prop :=
  getClusterRank m.destination = k ∧ (cfg.IsApplication m.destination ∨ m.body = .finalize)

/-- The thread has these replies to `FINALIZE` left to enqueue. -/
inductive Telling (cfg : Server.Config) : Receiver → List Reply → Prop where
  | free (req : CommunicatorRequest) : Telling cfg
      (.working req [.free 0, .tell (finalizeReplies cfg)] []) (finalizeReplies cfg)
  | tell (req : CommunicatorRequest) : Telling cfg
      (.working req [.tell (finalizeReplies cfg)] []) (finalizeReplies cfg)
  | enqueue (req : CommunicatorRequest) (replies : List Reply) :
      Telling cfg (.working req [] replies) replies
  | told {receiver : Receiver} (hidle : receiver.idle) : Telling cfg receiver []

/-- A thread with nothing to do has told everyone. -/
theorem Telling.eq_nil {cfg : Server.Config} {receiver : Receiver} {rest : List Reply}
    (h : Telling cfg receiver rest) (hidle : receiver.idle) : rest = [] := by
  cases h with
  | free req => cases hidle
  | tell req => cases hidle
  | enqueue req =>
      cases rest with
      | nil => rfl
      | cons m replies => cases hidle
  | told hidle => rfl

/-- Until `FINALIZE` is carried out. -/
structure Before (cfg : Server.Config) (s : State) : Prop where
  requests : RequestsInv cfg s
  server : ServerInv cfg s
  enqueued : ∀ k, ∀ m ∈ s.enqueued k,
    getClusterRank m.destination = k ∧ cfg.IsApplication m.destination

/-- From then on: a thread has the replies `rest` left, and the last reply of a cluster is for its
master gateway. -/
structure After (cfg : Server.Config) (s : State) (k₀ : Nat) (rest : List Reply) : Prop where
  quiet : Quiet s
  telling : Telling cfg (s.receiver k₀) rest
  idle : ∀ k ≠ k₀, (s.receiver k).idle
  last : ∀ k < cfg.numberOfClusters, ∃ l,
    s.enqueued k ++ rest.filter (fun m => getClusterRank m.destination = k) =
        l ++ [⟨master cfg k, .finalize⟩] ∧
      ∀ m ∈ l, m.destination ≠ master cfg k ∧ ForCluster cfg k m

/-- How far the application has come. -/
def Progress (cfg : Server.Config) (s : State) : Prop :=
  Before cfg s ∨ ∃ k₀ rest, After cfg s k₀ rest

/-- If nothing is on its way, nothing is anywhere. -/
theorem RequestsInv.quiet (h : RequestsInv cfg s)
    (hall : ∀ pid, cfg.IsApplication pid →
      (s.application pid).early = false ∧ s.outstanding pid = []) : Quiet s where
  early pid := by
    by_contra hearly
    have hearly : (s.application pid).early = true := by simpa using hearly
    exact absurd (hall pid (h.early pid hearly)).1 (by simp [hearly])
  requests pid := by
    refine List.eq_nil_iff_forall_not_mem.mpr fun m hm => ?_
    obtain ⟨rfl, hproper⟩ := h.requests pid m hm
    have hmem : m ∈ s.outstanding m.source := List.mem_append_right _ hm
    rw [(hall _ hproper.application).2] at hmem
    cases hmem
  queue k := by
    refine List.eq_nil_iff_forall_not_mem.mpr fun m hm => ?_
    obtain ⟨rfl, hproper⟩ := h.queue k m hm
    have hmem : m ∈ s.outstanding m.source :=
      List.mem_append_left _ (List.mem_append_right _
        (List.mem_filter.mpr ⟨hm, decide_eq_true rfl⟩))
    rw [(hall _ hproper.application).2] at hmem
    cases hmem
  link k m hm := by
    obtain ⟨rfl, hproper⟩ := h.link k m hm
    have hmem : m ∈ s.outstanding m.source :=
      List.mem_append_left _ (List.mem_append_left _
        (List.mem_filterMap.mpr ⟨_, hm, if_pos rfl⟩))
    rw [(hall _ hproper.application).2] at hmem
    cases hmem

/-- **`FINALIZE` is carried out.** -/
theorem Before.read (h : Before cfg s) (hlink : s.toServer k = .request req :: rest) :
    Progress cfg (s.read cfg order k req rest) := by
  have hread : RequestsInv cfg (s.read cfg order k req rest) ∧ _ := h.requests.read hlink
  have hserver : ServerInv cfg (s.read cfg order k req rest) ∨ _ := h.server.read h.requests hlink
  rcases hserver with hserver | ⟨hjobs, hall, hidle⟩
  · exact Or.inl ⟨hread.1, hserver, h.enqueued⟩
  · refine Or.inr ⟨k, finalizeReplies cfg, hread.1.quiet hall, ?_, fun k' hk' => ?_, fun k' hk' => ?_⟩
    · simp only [State.read, Function.update_self, hjobs]
      exact .free req
    · simp only [State.read, Function.update_of_ne hk']
      exact hidle k' hk'
    · obtain ⟨l, hl, hothers⟩ := exists_filter_finalizeReplies hk'
      refine ⟨s.enqueued k' ++ l, ?_, fun m hm => ?_⟩
      · rw [hl, List.append_assoc]
        rfl
      · rcases List.mem_append.mp hm with hm | hm
        · obtain ⟨hcluster, happlication⟩ := h.enqueued k' m hm
          exact ⟨ne_master hk' happlication, hcluster, Or.inl happlication⟩
        · have hmem : m ∈ (finalizeReplies cfg).filter
              (fun m => getClusterRank m.destination = k') := by
            rw [hl]
            exact List.mem_append_left _ hm
          obtain ⟨hne, hbody⟩ := hothers m hm
          exact ⟨hne, of_decide_eq_true (List.mem_filter.mp hmem).2, Or.inr hbody⟩

end Closing

end EsalsaMpi
