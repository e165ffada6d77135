import EsalsaMpi.Concurrent.Steps
import EsalsaMpi.Library.Registry

/-!
# The numbers of communicators

Whatever requests arrive in whatever order, and however the threads of the
server take turns, `createCommunicator` hands out the numbers 3, 4, 5, … one by
one; a slot that `freeCommunicator` clears is not filled again.  Every process
is told of a new communicator once, so the place in its table is free when it
gets there (`numbersFit_of_reachable`).
-/

namespace EsalsaMpi

namespace Concurrent

variable {cfg : Server.Config} {order : Server.HashOrder} {s s' : Concurrent}

/-- The handles announced by the replies on their way to a process. -/
def handles (replies : Pid → List Server.ReplyBody) (pid : Pid) : List Nat :=
  (replies pid).filterMap (·.handle)

theorem handles_enqueue (replies : Pid → List Server.ReplyBody) (ms : List Server.Reply)
    (pid : Pid) :
    handles (enqueue replies ms) pid = handles replies pid ++ Server.announced ms pid := by
  rw [handles, enqueue, List.filterMap_append, List.filterMap_map]
  rfl

/-- What is known of the table of a process: its handles are numbers of the
server, and the places for the handles announced to it are free. -/
structure TableFits (length : Nat) (handles : List Nat) (p : Process) : Prop where
  lt : ∀ h, (p.comms h).isSome → h < length
  free : ∀ h ∈ handles, p.comms h = none

/-- **The invariant of the numbers.** -/
structure Inv (s : Concurrent) : Prop where
  numbered : Registry.Numbered Server.Communicator.number s.server
  issued : Registry.Issued 3 s.server s.handedOut
  kept : ∀ (n : Nat) c, s.server[n]? = some (some c) → c.WellKept
  requests : ∀ q, ∀ m ∈ s.requests q, m.Distinct
  work : ∀ n, ∀ job ∈ s.work n, job.Fits
  nodup : ∀ pid, (handles s.replies pid).Nodup
  handedOut : ∀ pid, ∀ h ∈ handles s.replies pid, h ∈ s.handedOut
  table : ∀ pid p, s.processes pid = some p →
    TableFits s.server.length (handles s.replies pid) p

/-- A table is not touched by what happens to other processes. -/
theorem TableFits.mono {length length' : Nat} {hs hs' : List Nat} {p : Process}
    (h : TableFits length hs p) (hle : length ≤ length') (hsub : ∀ x ∈ hs', x ∈ hs) :
    TableFits length' hs' p :=
  ⟨fun x hx => Nat.lt_of_lt_of_le (h.lt x hx) hle, fun x hx => h.free x (hsub x hx)⟩

theorem inv_request (hinv : s.Inv) {req : Server.CommunicatorRequest} (hreq : req.Distinct) :
    (s.request req).Inv where
  numbered := hinv.numbered
  issued := hinv.issued
  kept := hinv.kept
  requests := by
    intro q m hm
    rcases Queues.mem_push.mp hm with hm | ⟨_, hm⟩
    · exact hinv.requests q m hm
    · rw [List.mem_singleton] at hm
      exact hm ▸ hreq
  work := hinv.work
  nodup := hinv.nodup
  handedOut := hinv.handedOut
  table := hinv.table

/-- Another version of a communicator in its slot, and jobs on it. -/
theorem inv_admitted (hinv : s.Inv) {n : Nat} {c : Server.Communicator}
    {jobs : List Server.Job} {requests : Pid → List Server.CommunicatorRequest}
    (hn : c.number = n) (hkept : c.WellKept) (hjobs : ∀ job ∈ jobs, job.Fits)
    (hrequests : ∀ q, ∀ m ∈ requests q, m.Distinct) :
    Inv { s with
      server := s.server.set n (some c)
      work := Function.update s.work n jobs
      requests := requests } where
  numbered := hinv.numbered.set hn
  issued := hinv.issued.set n _
  kept := by
    intro i c' hc'
    rw [List.getElem?_set] at hc'
    split at hc'
    · split at hc'
      · cases hc'
        exact hkept
      · cases hc'
    · exact hinv.kept i c' hc'
  requests := hrequests
  work := by
    intro i job hjob
    by_cases hi : i = n
    · subst hi
      simp only [Function.update_self] at hjob
      exact hjobs job hjob
    · simp only [Function.update_of_ne hi] at hjob
      exact hinv.work i job hjob
  nodup := hinv.nodup
  handedOut := hinv.handedOut
  table := by
    intro pid p hp
    simp only [List.length_set]
    exact hinv.table pid p hp

theorem inv_deliver (hinv : s.Inv) {req : Server.CommunicatorRequest}
    {before after : List Server.CommunicatorRequest}
    (hrequest : s.requests req.source = before ++ req :: after)
    (hmonitor : s.work req.communicator = []) :
    (s.deliver cfg order req (before ++ after)).Inv := by
  have hreq : req.Distinct := hinv.requests req.source req (by simp [hrequest])
  have hleft : ∀ q, ∀ m ∈ Function.update s.requests req.source (before ++ after) q,
      m.Distinct := by
    intro q m hm
    by_cases hq : q = req.source
    · subst hq
      rw [Function.update_self] at hm
      refine hinv.requests req.source m ?_
      rw [hrequest]
      rcases List.mem_append.mp hm with hm | hm <;> simp [hm]
    · rw [Function.update_of_ne hq] at hm
      exact hinv.requests q m hm
  rcases Server.admitRequest_cases s.server req with hsame | ⟨c, hlive, _, h⟩
  · have hwork : Function.update s.work req.communicator [] = s.work := by
      rw [← hmonitor, Function.update_eq_self]
    rw [deliver, hsame]
    simp only [hwork]
    exact ⟨hinv.numbered, hinv.issued, hinv.kept, hleft, hinv.work, hinv.nodup, hinv.handedOut,
      hinv.table⟩
  · have hnumber := hinv.numbered _ _ hlive
    have hstored := (hinv.kept _ _ hlive).store hreq
    rcases h with ⟨_, h⟩ | ⟨_, h⟩
    · rw [deliver, h, hnumber]
      exact inv_admitted hinv hnumber hstored (by simp) hleft
    · rw [deliver, h, hnumber]
      refine inv_admitted hinv hnumber hstored.reset ?_ hleft
      apply hstored.fits_jobs fun m hm => hstored.of_mem_requests hm
      exact List.pairwise_map.mpr (hstored.pairwise_requests.imp fun hlt => Nat.ne_of_lt hlt)

/-- The server after a job, with what the job announces. -/
structure Ran (s : Concurrent) (server : Server.State) (ms : List Server.Reply)
    (created : List Nat) : Prop where
  numbered : Registry.Numbered Server.Communicator.number server
  issued : Registry.Issued 3 server (s.handedOut ++ created)
  kept : ∀ (n : Nat) c, server[n]? = some (some c) → c.WellKept
  length_le : s.server.length ≤ server.length
  announced : ∀ pid, (Server.announced ms pid).Sublist created
  fresh : ∀ n ∈ created, n = s.server.length

/-- **One job of a thread**, at a server whose numbers are right. -/
theorem ran_of_run (hinv : s.Inv) {job : Server.Job} (hjob : job.Fits)
    {server : Server.State} {ms : List Server.Reply}
    (hrun : job.run cfg s.server = some (server, ms)) :
    Ran s server ms (created cfg s.server job) := by
  rcases Server.Job.run_cases hrun with ⟨pids, replies, rfl, rfl, rfl⟩ | ⟨replies, rfl, rfl, rfl⟩ |
    ⟨number, rfl, rfl, rfl⟩
  · have hcreated : created cfg s.server (.create pids replies) = [s.server.length] := by
      obtain ⟨⟨s', com⟩, hcreate, _⟩ := Option.map_eq_some_iff.mp hrun
      obtain ⟨rfl, _⟩ := Server.createCommunicator_eq_some hcreate
      rw [created, hcreate]
      rfl
    rw [hcreated]
    exact
      { numbered := hinv.numbered.append rfl
        issued := hinv.issued.append _
        kept := by
          intro n c hc
          rcases Nat.lt_or_ge n s.server.length with hn | hn
          · rw [List.getElem?_append_left hn] at hc
            exact hinv.kept n c hc
          · rw [List.getElem?_append_right hn] at hc
            obtain ⟨_, hc⟩ := List.getElem?_eq_some_iff.mp hc
            simp only [List.getElem_singleton, Option.some.injEq] at hc
            exact hc ▸ Server.Communicator.WellKept.fresh hjob.1 _
        length_le := by simp
        announced := fun pid =>
          (Server.announced_filter_sublist _ pid).trans (hjob.2 _ pid)
        fresh := by simp }
  · have hnone : ∀ pid, Server.announced (Server.enqueueReplies cfg replies) pid = [] := by
      intro pid
      rw [Server.announced, List.filterMap_eq_nil_iff]
      intro m hm
      exact hjob m (List.mem_filter.mp (List.mem_filter.mp hm).1).1
    refine ⟨hinv.numbered, ?_, hinv.kept, Nat.le_refl _, ?_, by simp [created]⟩
    · simpa [created] using hinv.issued
    · intro pid
      rw [hnone]
      exact List.nil_sublist _
  · refine ⟨hinv.numbered.clear number, ?_, ?_, by simp, by simp [Server.announced],
      by simp [created]⟩
    · simpa [created] using hinv.issued.set number none
    · intro n c hc
      rw [List.getElem?_set] at hc
      split at hc
      · split at hc <;> cases hc
      · exact hinv.kept n c hc

theorem inv_perform (hinv : s.Inv) {n : Nat} {job : Server.Job} {jobs : List Server.Job}
    (hwork : s.work n = job :: jobs) : (s.perform cfg n job jobs).Inv := by
  have hrest : ∀ {left : List Server.Job}, (∀ j ∈ left, j ∈ s.work n) →
      ∀ i, ∀ j ∈ Function.update s.work n left i, j.Fits := by
    intro left hleft i j hj
    by_cases hi : i = n
    · subst hi
      rw [Function.update_self] at hj
      exact hinv.work i j (hleft j hj)
    · rw [Function.update_of_ne hi] at hj
      exact hinv.work i j hj
  cases hrun : job.run cfg s.server with
  | none =>
      rw [perform, hrun]
      exact ⟨hinv.numbered, hinv.issued, hinv.kept, hinv.requests, hrest (by simp), hinv.nodup,
        hinv.handedOut, hinv.table⟩
  | some result =>
      obtain ⟨server, ms⟩ := result
      have hran := ran_of_run hinv (hinv.work n job (by simp [hwork])) hrun
      -- what the job announces is the number it has created, which nobody knows
      have hnew : ∀ pid, ∀ h ∈ Server.announced ms pid, h = s.server.length := fun pid h hh =>
        hran.fresh h ((hran.announced pid).subset hh)
      have hold : ∀ pid, ∀ h ∈ handles s.replies pid, h < s.server.length := fun pid h hh =>
        (hinv.issued.mem_iff.mp (hinv.handedOut pid h hh)).2
      have hcreated : (created cfg s.server job).Nodup :=
        (List.nodup_append.mp hran.issued.nodup).2.1
      rw [perform, hrun]
      refine ⟨hran.numbered, hran.issued, hran.kept, hinv.requests,
        hrest (by simp +contextual [hwork]), ?_, ?_, ?_⟩
      · intro pid
        simp only [handles_enqueue]
        refine List.nodup_append.mpr ⟨hinv.nodup pid, hcreated.sublist (hran.announced pid), ?_⟩
        intro h hh h' hh' heq
        have hlt := hold pid h hh
        have hlast := hnew pid h' hh'
        omega
      · intro pid h hh
        simp only [handles_enqueue] at hh
        rcases List.mem_append.mp hh with hh | hh
        · exact List.mem_append_left _ (hinv.handedOut pid h hh)
        · exact List.mem_append_right _ ((hran.announced pid).subset hh)
      · intro pid p hp
        have htable := hinv.table pid p hp
        simp only [handles_enqueue]
        refine ⟨fun h hh => Nat.lt_of_lt_of_le (htable.lt h hh) hran.length_le, ?_⟩
        intro h hh
        rcases List.mem_append.mp hh with hh | hh
        · exact htable.free h hh
        · rw [hnew pid h hh, ← Option.not_isSome_iff_eq_none]
          intro hsome
          exact Nat.lt_irrefl _ (htable.lt _ hsome)

/-- **The table of a process that has taken a reply.** -/
theorem TableFits.conclude {length : Nat} {left right : List Nat} {body : Server.ReplyBody}
    {p : Process} {c : Communicator} {op : Server.Operation} {comm : Option (List Pid)}
    (h : TableFits length (left ++ body.handle.toList ++ right) p)
    (hnodup : (left ++ body.handle.toList ++ right).Nodup)
    (hlt : ∀ x ∈ body.handle, x < length) :
    TableFits length (left ++ right) ((p.conclude c op body comm).getD p) := by
  have hsub : ∀ x ∈ left ++ right, x ∈ left ++ body.handle.toList ++ right := by
    intro x hx
    rcases List.mem_append.mp hx with hx | hx <;> simp [hx]
  cases hconclude : p.conclude c op body comm with
  | none => exact h.mono (Nat.le_refl _) hsub
  | some p' =>
      rcases conclude_cases hconclude with rfl | ⟨newComm, c', hnew, hadd⟩
      · exact h.mono (Nat.le_refl _) hsub
      · obtain ⟨hnonneg, _, hregisters⟩ := addCommunicator_eq_some hadd
        have hhandle : body.handle = some newComm.toNat := by
          rw [Server.ReplyBody.handle, hnew]
          exact if_pos hnonneg
        rw [hhandle] at hnodup hlt h
        constructor
        · intro x hx
          rw [Option.getD_some, hregisters.comms] at hx
          split at hx
          · rename_i heq
            exact heq ▸ hlt _ rfl
          · exact h.lt x hx
        · intro x hx
          have hne : x ≠ newComm.toNat := by
            rintro rfl
            rw [Option.toList_some, List.append_assoc, List.singleton_append, List.nodup_middle,
                List.nodup_cons] at hnodup
            exact hnodup.1 hx
          rw [Option.getD_some, hregisters.comms, if_neg hne]
          exact h.free x (by rw [hhandle] at hsub; exact hsub x hx)

theorem inv_accept (hinv : s.Inv) {pid : Pid} {p : Process} {body : Server.ReplyBody}
    {before after : List Server.ReplyBody} (c : Communicator) (op : Server.Operation)
    (comm : Option (List Pid)) (hp : s.processes pid = some p)
    (hreply : s.replies pid = before ++ body :: after) :
    (s.accept pid ((p.conclude c op body comm).getD p) (before ++ after)).Inv := by
  have hhandles : handles s.replies pid =
      before.filterMap (·.handle) ++ body.handle.toList ++ after.filterMap (·.handle) := by
    rw [handles, hreply, List.filterMap_append, List.filterMap_cons]
    cases body.handle <;> simp
  have hleft : handles (Function.update s.replies pid (before ++ after)) pid =
      before.filterMap (·.handle) ++ after.filterMap (·.handle) := by
    rw [handles, Function.update_self, List.filterMap_append]
  have hother : ∀ q, q ≠ pid →
      handles (Function.update s.replies pid (before ++ after)) q = handles s.replies q := by
    intro q hq
    rw [handles, handles, Function.update_of_ne hq]
  have hsub : ∀ x ∈ before.filterMap (·.handle) ++ after.filterMap (·.handle),
      x ∈ handles s.replies pid := by
    intro x hx
    rw [hhandles]
    rcases List.mem_append.mp hx with hx | hx
    · exact List.mem_append_left _ (List.mem_append_left _ hx)
    · exact List.mem_append_right _ hx
  refine ⟨hinv.numbered, hinv.issued, hinv.kept, hinv.requests, hinv.work, ?_, ?_, ?_⟩
  · intro q
    by_cases hq : q = pid
    · subst hq
      rw [accept, hleft]
      have hnodup := hinv.nodup q
      rw [hhandles] at hnodup
      exact hnodup.sublist ((List.sublist_append_left _ _).append_right _)
    · rw [accept, hother q hq]
      exact hinv.nodup q
  · intro q h hh
    by_cases hq : q = pid
    · subst hq
      rw [accept, hleft] at hh
      exact hinv.handedOut q h (hsub h hh)
    · rw [accept, hother q hq] at hh
      exact hinv.handedOut q h hh
  · intro q p' hp'
    by_cases hq : q = pid
    · subst hq
      simp only [accept, Function.update_self, Option.some.injEq] at hp'
      subst hp'
      rw [accept, hleft]
      apply TableFits.conclude
      · rw [← hhandles]
        exact hinv.table q p hp
      · rw [← hhandles]
        exact hinv.nodup q
      · intro x hx
        have hmem : x ∈ handles s.replies q := by
          rw [hhandles, hx]
          simp
        exact (hinv.issued.mem_iff.mp (hinv.handedOut q x hmem)).2
    · simp only [accept, Function.update_of_ne hq] at hp'
      rw [accept, hother q hq]
      exact hinv.table q p' hp'

theorem inv_free (hinv : s.Inv) {pid : Pid} {p : Process} (handle : Nat)
    (hp : s.processes pid = some p) : (s.freeCommunicator pid p handle).Inv := by
  refine ⟨hinv.numbered, hinv.issued, hinv.kept, hinv.requests, hinv.work, hinv.nodup,
    hinv.handedOut, ?_⟩
  intro q p' hp'
  by_cases hq : q = pid
  · subst hq
    simp only [freeCommunicator, Function.update_self, Option.some.injEq] at hp'
    subst hp'
    have htable := hinv.table q p hp
    constructor
    · intro h hh
      by_cases hfreed : h = handle
      · subst hfreed
        simp at hh
      · simp only [Function.update_of_ne hfreed] at hh
        exact htable.lt h hh
    · intro h hh
      by_cases hfreed : h = handle
      · subst hfreed
        simp
      · simp only [Function.update_of_ne hfreed]
        exact htable.free h hh
  · simp only [freeCommunicator, Function.update_of_ne hq] at hp'
    exact hinv.table q p' hp'

/-- Every step keeps the numbers right. -/
theorem inv_step (hstep : Step cfg order s s') (hinv : s.Inv) : s'.Inv := by
  cases hstep with
  | request req hgroup => exact inv_request hinv hgroup
  | deliver hrequest hmonitor => exact inv_deliver hinv hrequest hmonitor
  | perform hwork => exact inv_perform hinv hwork
  | accept c op comm hp hreply => exact inv_accept hinv c op comm hp hreply
  | free handle hp => exact inv_free hinv handle hp

/-- The invariant at the start. -/
theorem inv_start : (start cfg
    [some (Server.Communicator.fresh 0 (Server.tablesSpec (Server.worldMembers cfg))), none,
      none]).Inv where
  numbered := by
    intro n c hc
    match n with
    | 0 =>
        cases hc
        rfl
    | 1 => cases hc
    | 2 => cases hc
    | n + 3 => cases hc
  issued := ⟨Nat.le_refl 3, rfl⟩
  kept := by
    intro n c hc
    match n with
    | 0 =>
        cases hc
        exact Server.Communicator.WellKept.fresh (Server.valid_worldMembers cfg).nodup 0
    | 1 => cases hc
    | 2 => cases hc
    | n + 3 => cases hc
  requests := by
    intro q m hm
    cases hm
  work := by
    intro n job hjob
    cases hjob
  nodup := fun _ => List.nodup_nil
  handedOut := by
    intro pid h hh
    cases hh
  table := by
    intro pid p hp
    obtain ⟨happ, hp⟩ := @System.start_processes cfg [] pid p hp
    obtain ⟨p', hp', _, _, hnone⟩ := initCommunicators_mirrors happ
    rw [hp] at hp'
    cases hp'
    refine ⟨?_, by simp [handles, start]⟩
    intro h hh
    by_contra hle
    rw [hnone h (Nat.le_of_not_lt hle)] at hh
    cases hh

/-- **The numbers are right in every reachable state.** -/
theorem inv_of_reachable (h : Reachable cfg order s) : s.Inv := by
  obtain ⟨server, hserver, hrun⟩ := h
  rw [Server.initCommWorld_eq] at hserver
  cases hserver
  induction hrun with
  | refl => exact inv_start
  | tail _ hstep ih => exact inv_step hstep ih

/-- How communicators are numbered: what the server hands out is new and not
reserved, a slot of its list is empty or holds the communicator of that number,
whatever is announced to a process has been handed out, and `add_communicator`
has room for it. -/
structure NumbersFit (s : Concurrent) : Prop where
  notReserved : ∀ n ∈ s.handedOut, 3 ≤ n
  distinct : s.handedOut.Nodup
  slot : ∀ (n : Nat) c, s.server[n]? = some (some c) → c.number = n
  known : ∀ (n : Nat) c, s.server[n]? = some (some c) → 3 ≤ n → n ∈ s.handedOut
  announced : ∀ pid, ∀ body ∈ s.replies pid, ∀ n, body.handle = some n → n ∈ s.handedOut
  room : ∀ pid p, s.processes pid = some p → ∀ body ∈ s.replies pid,
    ∀ newComm, body.newComm = some newComm →
      p.addError newComm false ≠ some .reserved ∧ p.addError newComm false ≠ some .existing

/-- A number that is not handed out already, and a free place for it. -/
theorem Inv.room (hinv : s.Inv) {pid : Pid} {p : Process} {body : Server.ReplyBody}
    {newComm : Int} (hp : s.processes pid = some p) (hbody : body ∈ s.replies pid)
    (hnew : body.newComm = some newComm) :
    newComm < 0 ∨ (3 ≤ newComm ∧ p.comms newComm.toNat = none) := by
  rcases Int.lt_or_le newComm 0 with hneg | hnonneg
  · exact Or.inl hneg
  · have hhandle : newComm.toNat ∈ handles s.replies pid := by
      refine List.mem_filterMap.mpr ⟨body, hbody, ?_⟩
      rw [Server.ReplyBody.handle, hnew]
      exact if_pos hnonneg
    have hle := (hinv.issued.mem_iff.mp (hinv.handedOut pid _ hhandle)).1
    exact Or.inr ⟨by omega, (hinv.table pid p hp).free _ hhandle⟩

/-- **Communicator numbering**, for requests in any order and threads that take
turns in any way. -/
theorem numbersFit_of_reachable (h : Reachable cfg order s) : s.NumbersFit := by
  have hinv := inv_of_reachable h
  refine ⟨fun n hn => (hinv.issued.mem_iff.mp hn).1, hinv.issued.nodup, hinv.numbered, ?_, ?_, ?_⟩
  · intro n c hc hn
    exact hinv.issued.mem_iff.mpr ⟨hn, (List.getElem?_eq_some_iff.mp hc).1⟩
  · intro pid body hbody n hn
    exact hinv.handedOut pid n (List.mem_filterMap.mpr ⟨body, hbody, hn⟩)
  · intro pid p hp body hbody newComm hnew
    have hbounds : newComm < 0 ∨ (3 ≤ newComm ∧ p.comms newComm.toNat = none) :=
      hinv.room hp hbody hnew
    rw [Process.addError]
    split
    · simp
    · split
      · omega
      · split
        · rename_i hsome
          rcases hbounds with hneg | ⟨_, hnone⟩
          · omega
          · rw [hnone] at hsome
            cases hsome
        · simp

/-- The requests for a dup of the world in a run of two processes. -/
def dupOf (pid : Pid) (rank : Nat) : Server.CommunicatorRequest := ⟨pid, 0, rank, .dup⟩

/-- The run of `Config.pair` in which both processes have asked for a dup. -/
def asked : Concurrent :=
  ((start .pair System.pairServer).request (dupOf 0 0)).request (dupOf (setPid 1 0) 1)

/-- The run after both requests have been delivered, the second one first. -/
def delivered : Concurrent :=
  (asked.deliver .pair .insertion (dupOf (setPid 1 0) 1) []).deliver .pair .insertion (dupOf 0 0) []

/-- The run after the server has created the communicator. -/
def dupped : Concurrent :=
  delivered.perform .pair 0
    (.create (Server.worldMembers .pair) fun com =>
      (Server.worldMembers .pair).map fun pid => ⟨pid, .dup com.number⟩) []

theorem reachable_dupped : Reachable .pair .insertion dupped := by
  have hdup : ∀ pid r pids, (dupOf pid r).toGroup = some pids → pids.Nodup := by
    intro pid r pids h
    cases h
  refine ⟨System.pairServer, Server.initCommWorld_eq .pair, ?_⟩
  have hasked : Relation.ReflTransGen (Step .pair .insertion) (start .pair System.pairServer)
      asked :=
    (Relation.ReflTransGen.single (Step.request (dupOf 0 0) (hdup _ _))).tail
      (Step.request (dupOf (setPid 1 0) 1) (hdup _ _))
  have hfirst := hasked.tail (@Step.deliver .pair .insertion asked (dupOf (setPid 1 0) 1) [] []
    rfl rfl)
  have hsecond := hfirst.tail (@Step.deliver .pair .insertion _ (dupOf 0 0) [] [] rfl rfl)
  exact hsecond.tail (@Step.perform .pair .insertion delivered 0 _ _ rfl)

theorem numbersFit_dupped : dupped.NumbersFit ∧ dupped.handedOut = [3] :=
  ⟨numbersFit_of_reachable reachable_dupped, by decide⟩

end Concurrent

end EsalsaMpi
