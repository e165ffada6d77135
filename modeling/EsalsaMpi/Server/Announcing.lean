import EsalsaMpi.Server.Jobs

/-!
# What replies announce

A reply tells its destination the number of a new communicator, or that there is
none for it.  The jobs of an operation announce a new communicator to nobody
twice, as long as the slots hold one request of each rank and groups list
distinct processes: `Communicator.WellKept.fits_jobs`.
-/

namespace EsalsaMpi

namespace Server

/-- The number of the new communicator that a reply announces. -/
def ReplyBody.newComm : ReplyBody → Option Int
  | .split info _ _ => some info.newComm
  | .group info _ => some info.newComm
  | .dup newComm => some newComm
  | .finalize => none

/-- The handle that a reply announces, when it is for a new communicator. -/
def ReplyBody.handle (body : ReplyBody) : Option Nat :=
  body.newComm.bind fun newComm => if 0 ≤ newComm then some newComm.toNat else none

variable {cfg : Config} {order : HashOrder} {s s' : State} {c : Communicator}
  {ms : List Reply} {n : Nat}

/-- What `createCommunicator` does when the constructor does not throw. -/
theorem createCommunicator_eq_some {pids : List Pid} {com : Communicator}
    (h : createCommunicator cfg s pids = some (s', com)) :
    com = Communicator.fresh s.length (tablesSpec pids) ∧ s' = s ++ [some com] := by
  rw [createCommunicator, tablesOf_eq] at h
  split at h
  · cases h
    exact ⟨rfl, rfl⟩
  · cases h

/-- The handles that replies announce to the process `pid`. -/
def announced (ms : List Reply) (pid : Pid) : List Nat :=
  (ms.filter fun m => m.destination = pid).filterMap fun m => m.body.handle

/-- Replies to different processes that announce one number at most. -/
theorem announced_sublist (hdest : (ms.map Reply.destination).Nodup)
    (hn : ∀ m ∈ ms, ∀ h, m.body.handle = some h → h = n) (pid : Pid) :
    (announced ms pid).Sublist [n] := by
  induction ms with
  | nil => simp [announced]
  | cons m ms ih =>
      rw [List.map_cons, List.nodup_cons] at hdest
      have hrest := ih hdest.2 fun m' hm' => hn m' (List.mem_cons_of_mem _ hm')
      by_cases hpid : m.destination = pid
      · -- the others are for other processes
        have hnone : ms.filter (fun m => m.destination = pid) = [] := by
          rw [List.filter_eq_nil_iff]
          intro m' hm' heq
          apply hdest.1
          rw [hpid, ← of_decide_eq_true heq]
          exact List.mem_map_of_mem hm'
        rw [announced, List.filter_cons_of_pos (by simpa using hpid), hnone]
        cases hhandle : m.body.handle with
        | none => simp [hhandle]
        | some h =>
            rw [hn m List.mem_cons_self h hhandle] at hhandle
            simp [hhandle]
      · rwa [announced, List.filter_cons_of_neg (by simpa using hpid)]

theorem announced_filter_sublist (f : Reply → Bool) (pid : Pid) :
    (announced (ms.filter f) pid).Sublist (announced ms pid) :=
  (List.filter_sublist.filter _).filterMap _

/-- A job creates communicators of distinct members, tells every process of the
new one at most once, and of no other. -/
def Job.Fits : Job → Prop
  | .create pids replies => pids.Nodup ∧ ∀ (k : Nat) pid,
      (announced (replies (Communicator.fresh k (tablesSpec pids))) pid).Sublist [k]
  | .tell replies => ∀ m ∈ replies, m.body.handle = none
  | .free _ => True

/-- A group request lists distinct processes. -/
def CommunicatorRequest.Distinct (m : CommunicatorRequest) : Prop :=
  ∀ pids, m.toGroup = some pids → pids.Nodup

/-- A communicator whose slots hold requests of their rank. -/
structure Communicator.WellKept (c : Communicator) : Prop where
  nodup : c.tables.members.Nodup
  length_messages : c.messages.length = c.size
  slot : ∀ (r : Nat) m, c.messages[r]? = some (some m) → m.rank = r ∧ m.Distinct

namespace Communicator

theorem WellKept.fresh {pids : List Pid} (h : pids.Nodup) (k : Nat) :
    (Communicator.fresh k (tablesSpec pids)).WellKept where
  nodup := h
  length_messages := List.length_replicate
  slot := by
    intro r m hm
    simp [Communicator.fresh, List.getElem?_replicate] at hm

theorem WellKept.reset (h : c.WellKept) : c.reset.WellKept where
  nodup := h.nodup
  length_messages := List.length_replicate
  slot := by
    intro r m hm
    simp [Communicator.reset, List.getElem?_replicate] at hm

theorem WellKept.store (h : c.WellKept) {req : CommunicatorRequest} (hreq : req.Distinct) :
    (c.store req).WellKept where
  nodup := h.nodup
  length_messages := by
    rw [Communicator.store, List.length_set]
    exact h.length_messages
  slot := by
    intro r m hm
    rw [Communicator.store, List.getElem?_set] at hm
    split at hm
    · rename_i hrank
      split at hm
      · cases hm
        exact ⟨hrank, hreq⟩
      · cases hm
    · exact h.slot r m hm

/-- The requests in the slots are in the order of their ranks. -/
theorem WellKept.pairwise_requests (h : c.WellKept) :
    c.requests.Pairwise fun m m' => m.rank < m'.rank := by
  rw [Communicator.requests, List.pairwise_filterMap, List.pairwise_iff_getElem]
  intro i j hi hj hij m hm m' hm'
  have hmi := (h.slot i m (by rw [List.getElem?_eq_getElem hi]; exact congrArg some hm)).1
  have hmj := (h.slot j m' (by rw [List.getElem?_eq_getElem hj]; exact congrArg some hm')).1
  omega

theorem WellKept.of_mem_requests (h : c.WellKept) {m : CommunicatorRequest}
    (hm : m ∈ c.requests) : m.rank < c.tables.members.length ∧ m.Distinct := by
  obtain ⟨slot, hslot, hm⟩ := List.mem_filterMap.mp hm
  cases hm
  obtain ⟨r, hr⟩ := List.getElem?_of_mem hslot
  obtain ⟨hrank, hdistinct⟩ := h.slot r m hr
  have hlt := (List.getElem?_eq_some_iff.mp hr).1
  rw [h.length_messages, Communicator.size] at hlt
  exact ⟨hrank ▸ hlt, hdistinct⟩

end Communicator

/-- The casts of `processSplit` keep the ranks. -/
theorem map_rank_toSplit_sublist (requests : List CommunicatorRequest) :
    ((requests.filterMap (·.toSplit)).map (·.rank)).Sublist (requests.map (·.rank)) := by
  induction requests with
  | nil => exact List.Sublist.slnil
  | cons m requests ih =>
      cases hm : m.toSplit with
      | none =>
          rw [List.filterMap_cons_none hm]
          exact ih.cons _
      | some l =>
          have hrank : l.rank = m.rank := by
            unfold CommunicatorRequest.toSplit at hm
            split at hm
            · cases hm
              rfl
            · cases hm
          rw [List.filterMap_cons_some hm, List.map_cons, List.map_cons, hrank]
          exact ih.cons_cons _

/-- The members of one color are distinct if the ranks of the requests are. -/
theorem nodup_colorPids {members : List Pid} {requests : List SplitRequest}
    (hmembers : members.Nodup) (hranks : ∀ m ∈ requests, m.rank < members.length)
    (hdistinct : (requests.map (·.rank)).Nodup) (color : Int) :
    (colorPids members requests color).Nodup := by
  have hsub : ∀ m ∈ (ofColor requests color).insertionSort SplitRequest.Le, m ∈ requests :=
    fun m hm => (List.mem_filter.mp ((List.mem_insertionSort _).mp hm)).1
  have hsorted : ((ofColor requests color).insertionSort SplitRequest.Le).Nodup := by
    rw [(List.perm_insertionSort _ _).nodup_iff]
    exact (List.Nodup.of_map _ hdistinct).filter _
  apply List.Nodup.map_on _ hsorted
  intro m hm m' hm' heq
  have hlt := hranks m (hsub m hm)
  have hlt' := hranks m' (hsub m' hm')
  rw [List.getD_eq_getElem _ _ hlt, List.getD_eq_getElem _ _ hlt'] at heq
  exact List.inj_on_of_nodup_map hdistinct (hsub m hm) (hsub m' hm')
    ((hmembers.getElem_inj_iff).mp heq)

/-- A reply to a participant announces the new communicator. -/
theorem handle_infoFor (com : Communicator) (j : Nat) :
    (if 0 ≤ (com.infoFor j).newComm then some (com.infoFor j).newComm.toNat else none) =
      some com.number := by
  simp [Communicator.infoFor]

/-- The job for a color. -/
theorem Communicator.fits_colorJob {members : List Pid} {requests : List SplitRequest}
    (hmembers : members.Nodup) (hranks : ∀ m ∈ requests, m.rank < members.length)
    (hdistinct : (requests.map (·.rank)).Nodup) (color : Int) :
    (colorJob members requests color).Fits := by
  have hpids := nodup_colorPids hmembers hranks hdistinct color
  unfold colorJob
  split
  · refine ⟨hpids, fun k pid => ?_⟩
    apply announced_sublist
    · rw [map_destination_splitReplies]
      exact hpids
    · intro m hm h hh
      obtain ⟨j, hj, rfl⟩ := List.mem_mapIdx.mp hm
      exact (Option.some.inj ((handle_infoFor _ j).symm.trans hh)).symm
  · intro m hm
    obtain ⟨request, _, rfl⟩ := List.mem_map.mp hm
    rfl

/-- The destinations of the replies of a create. -/
theorem Communicator.map_destination_groupReplies (members group : List Pid)
    (com : Communicator) :
    (groupReplies order members group com).map Reply.destination =
      group ++ order.elements (members.eraseDups.filter fun pid => pid ∉ group) := by
  have hinside : (group.mapIdx fun j pid =>
      (⟨pid, .group (com.infoFor j) .active⟩ : Reply)).map Reply.destination = group := by
    apply List.ext_getElem?
    intro j
    cases hj : group[j]? <;> simp [hj]
  rw [groupReplies, List.map_append, hinside, List.map_map]
  simp [Function.comp_def, outsiderGroupReply]

/-- The job for a group. -/
theorem Communicator.fits_groupJob {members group : List Pid} (hgroup : group.Nodup) :
    (Job.create group (groupReplies order members group)).Fits := by
  refine ⟨hgroup, fun k pid => ?_⟩
  apply announced_sublist
  · have houtside : (order.elements (members.eraseDups.filter fun pid => pid ∉ group)).Nodup :=
      (order.perm_elements _).nodup_iff.mpr ((FirstOccurrence.nodup_eraseDups _).filter _)
    rw [map_destination_groupReplies]
    refine List.nodup_append.mpr ⟨hgroup, houtside, ?_⟩
    intro pid hpid other hother heq
    subst heq
    rw [(order.perm_elements _).mem_iff] at hother
    exact absurd hpid (of_decide_eq_true (List.mem_filter.mp hother).2)
  · intro m hm h hh
    rcases List.mem_append.mp hm with hm | hm
    · obtain ⟨j, hj, rfl⟩ := List.mem_mapIdx.mp hm
      exact (Option.some.inj ((handle_infoFor _ j).symm.trans hh)).symm
    · obtain ⟨pid, _, rfl⟩ := List.mem_map.mp hm
      cases hh

/-- **The jobs of an operation** tell nobody twice of a new communicator. -/
theorem Communicator.WellKept.fits_jobs (h : c.WellKept) {requests : List CommunicatorRequest}
    (hrequests : ∀ m ∈ requests, m.rank < c.tables.members.length ∧ m.Distinct)
    (hdistinct : (requests.map (·.rank)).Nodup) :
    ∀ job ∈ c.jobs cfg order requests, job.Fits := by
  intro job hjob
  cases requests with
  | nil => cases hjob
  | cons first others =>
      rw [Communicator.jobs] at hjob
      split at hjob
      · cases hop : first.operation with
        | split color key =>
            simp only [hop] at hjob
            obtain ⟨color, _, rfl⟩ := List.mem_map.mp hjob
            apply fits_colorJob h.nodup
            · intro l hl
              obtain ⟨m, hm, _, hrank, _⟩ := exists_of_mem_filterMap_toSplit hl
              rw [hrank]
              exact (hrequests m hm).1
            · exact hdistinct.sublist (map_rank_toSplit_sublist _)
        | group pids =>
            simp only [hop] at hjob
            have hfirst : first.toGroup = some pids := by
              simp [CommunicatorRequest.toGroup, hop]
            rw [List.filterMap_cons_some hfirst, Communicator.groupJobs] at hjob
            split at hjob
            · rw [List.mem_singleton] at hjob
              subst hjob
              exact fits_groupJob ((hrequests first List.mem_cons_self).2 pids hfirst)
            · cases hjob
        | dup =>
            simp only [hop, Communicator.dupJobs, List.mem_singleton] at hjob
            subst hjob
            refine ⟨h.nodup, fun k pid => ?_⟩
            apply announced_sublist
            · simpa [Function.comp_def] using h.nodup
            · intro m hm h hh
              obtain ⟨pid, _, rfl⟩ := List.mem_map.mp hm
              exact (Option.some.inj hh).symm
        | free =>
            simp only [hop, List.mem_singleton] at hjob
            subst hjob
            trivial
        | finalize =>
            simp only [hop, Communicator.finalizeJobs] at hjob
            split at hjob
            · rcases List.mem_cons.mp hjob with rfl | hjob
              · trivial
              · rw [List.mem_singleton] at hjob
                subst hjob
                intro m hm
                obtain ⟨pid, _, rfl⟩ := List.mem_map.mp hm
                rfl
            · cases hjob
      · cases hjob

/-- **What a job does**, when the constructor does not throw. -/
theorem Job.run_cases {job : Job} (h : job.run cfg s = some (s', ms)) :
    (∃ pids replies, job = .create pids replies ∧
      s' = s ++ [some (Communicator.fresh s.length (tablesSpec pids))] ∧
      ms = enqueueReplies cfg (replies (Communicator.fresh s.length (tablesSpec pids)))) ∨
    (∃ replies, job = .tell replies ∧ s' = s ∧ ms = enqueueReplies cfg replies) ∨
    ∃ number, job = .free number ∧ s' = s.set number none ∧ ms = [] := by
  cases job with
  | create pids replies =>
      obtain ⟨⟨s'', com⟩, hcreate, heq⟩ := Option.map_eq_some_iff.mp h
      obtain ⟨rfl, rfl⟩ := createCommunicator_eq_some hcreate
      cases heq
      exact Or.inl ⟨pids, replies, rfl, rfl, rfl⟩
  | tell replies =>
      cases h
      exact Or.inr (Or.inl ⟨replies, rfl, rfl, rfl⟩)
  | free number =>
      cases h
      exact Or.inr (Or.inr ⟨number, rfl, rfl, rfl⟩)

end Server

end EsalsaMpi
