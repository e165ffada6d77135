import EsalsaMpi.Server.Announcing
import EsalsaMpi.Server.Rounds

/-!
# The replies of a round, job by job

When every member has sent its request, the jobs of the operation answer every
member once, or there are no jobs since the requests do not agree
(`jobs_serve`, `audience_perm`, `jobs_eq_nil`).  `Suits` says what the reply to
a request tells its sender; what it announces is a communicator that the server
has by then.
-/

namespace EsalsaMpi

namespace Server

/-- What a member may ask for: a group is part of the members. -/
def Operation.Legal (members : List Pid) : Operation → Prop
  | .split _ _ => True
  | .group pids => pids.Nodup ∧ ∀ pid ∈ pids, pid ∈ members
  | .dup => True
  | .free => False
  | .finalize => False

theorem Operation.exists_of_opcode_group {op : Operation} {pids : List Pid}
    (h : op.opcode = (Operation.group pids).opcode) : ∃ pids', op = .group pids' := by
  cases op with
  | group pids' => exact ⟨pids', rfl⟩
  | split color key => cases h
  | dup => cases h
  | free => cases h
  | finalize => cases h

theorem CommunicatorRequest.toGroup_eq_none {m : CommunicatorRequest}
    (h : m.operation.opcode ≠ (Operation.group []).opcode) : m.toGroup = none := by
  unfold CommunicatorRequest.toGroup
  split
  · rename_i pids hop
    exact absurd (congrArg Operation.opcode hop) h
  · rfl

theorem Operation.eq_dup_of_opcode {op : Operation} (h : op.opcode = Operation.dup.opcode) :
    op = .dup := by
  cases op with
  | dup => rfl
  | split color key => cases h
  | group pids => cases h
  | free => cases h
  | finalize => cases h

theorem Operation.Legal.fromClient {cfg : Config} {members : List Pid} {op : Operation}
    (h : op.Legal members) (hvalid : cfg.Valid members) (n : Nat) : op.FromClient cfg n := by
  cases op with
  | split color key => trivial
  | group pids => exact hvalid.mono h.1 h.2
  | dup => trivial
  | free => exact h.elim
  | finalize => exact h.elim

/-- The reply `body` suits the process `pid` that has asked for `op`: if it
announces a communicator, `live` has it under its number, with the tables and the
place in it that the reply tells, or with the tables `parent` for a dup. -/
def Suits (live : Nat → Tables → Prop) (parent : Tables) (pid : Pid) (op : Operation)
    (body : ReplyBody) : Prop :=
  match op, body with
  | .split _ _, .split info color _ => ∀ n, body.handle = some n →
      0 ≤ color ∧ live n info.tables ∧ info.tables.members[info.rank.toNat]? = some pid
  | .group pids, .group info type => ∀ n, body.handle = some n →
      (type = .active ∧ pid ∈ pids) ∧ live n info.tables ∧
        info.tables.members[info.rank.toNat]? = some pid
  | .dup, .dup _ => ∀ n, body.handle = some n → live n parent
  | _, _ => False

theorem Suits.mono {live live' : Nat → Tables → Prop} {parent : Tables} {pid : Pid}
    {op : Operation} {body : ReplyBody} (h : Suits live parent pid op body)
    (hlive : ∀ n t, live n t → live' n t) : Suits live' parent pid op body := by
  unfold Suits at h ⊢
  split at h
  · intro n hn
    obtain ⟨hcolor, hinfo, hrank⟩ := h n hn
    exact ⟨hcolor, hlive _ _ hinfo, hrank⟩
  · intro n hn
    obtain ⟨htype, hinfo, hrank⟩ := h n hn
    exact ⟨htype, hlive _ _ hinfo, hrank⟩
  · exact fun n hn => hlive _ _ (h n hn)
  · exact h.elim

/-- The processes that a job sends replies to. -/
def Job.audience : Job → List Pid
  | .create pids replies => (replies (Communicator.fresh 0 (tablesSpec pids))).map
      Reply.destination
  | .tell replies => replies.map Reply.destination
  | .free _ => []

/-- A job creates a communicator of application processes and answers requests
with it; the members learn its number, whatever that is. -/
structure Creates (cfg : Config) (parent : Tables) (requests : List CommunicatorRequest)
    (pids : List Pid) (replies : Communicator → List Reply) : Prop where
  valid : cfg.Valid pids
  audience : ∀ k, (replies (Communicator.fresh k (tablesSpec pids))).map Reply.destination =
    (Job.create pids replies).audience
  suits : ∀ k, ∀ m ∈ replies (Communicator.fresh k (tablesSpec pids)),
    ∃ req ∈ requests, req.source = m.destination ∧
      Suits (fun n t => n = k ∧ t = tablesSpec pids) parent m.destination req.operation m.body
  tells : ∀ k, ∀ pid ∈ pids, ∃ m ∈ replies (Communicator.fresh k (tablesSpec pids)),
    m.destination = pid ∧ m.body.handle = some k

/-- A job answers requests. -/
def Job.Serves (cfg : Config) (parent : Tables) (requests : List CommunicatorRequest) :
    Job → Prop
  | .create pids replies => Creates cfg parent requests pids replies
  | .tell replies => ∀ m ∈ replies, m.body.handle = none ∧
      ∃ req ∈ requests, req.source = m.destination ∧
        Suits (fun _ _ => False) parent m.destination req.operation m.body
  | .free _ => False

section Round

variable {cfg : Config} {order : HashOrder} {c : Communicator} {members : List Pid}
  {requests : List CommunicatorRequest}

/-- A split request of a round. -/
theorem exists_split_request (hround : c.IsRound requests) {l : SplitRequest}
    (hl : l ∈ requests.filterMap (·.toSplit)) :
    ∃ m ∈ requests, m.source = l.source ∧ m.operation = .split l.color l.key ∧
      c.tables.members[l.rank]? = some l.source := by
  obtain ⟨m, hm, hsource, hrank, hop⟩ := exists_of_mem_filterMap_toSplit hl
  refine ⟨m, hm, hsource.symm, hop, ?_⟩
  rw [hrank, hsource]
  exact hround.members_rank hm

/-- The job for a color answers the requests of that color. -/
theorem colorJob_serves (hround : c.IsRound requests) (hvalid : cfg.Valid c.tables.members)
    (color : Int) :
    (Communicator.colorJob c.tables.members (requests.filterMap (·.toSplit)) color).Serves cfg
      c.tables requests := by
  have hsources : ∀ l ∈ requests.filterMap (·.toSplit),
      c.tables.members[l.rank]? = some l.source := fun l hl =>
    (exists_split_request hround hl).choose_spec.2.2.2
  have hnodup : ((requests.filterMap (·.toSplit)).map (·.rank)).Nodup := by
    refine List.Nodup.sublist (map_rank_toSplit_sublist requests) ?_
    rw [List.nodup_iff_injective_getElem]
    intro i j heq
    simp only [List.getElem_map] at heq
    have hi := hround.rank i _ (List.getElem?_eq_getElem (by simpa using i.isLt))
    have hj := hround.rank j _ (List.getElem?_eq_getElem (by simpa using j.isLt))
    exact Fin.ext (hi.symm.trans (heq.trans hj))
  have hpids : cfg.Valid (colorPids c.tables.members (requests.filterMap (·.toSplit)) color) := by
    have hranks : ∀ l ∈ requests.filterMap (·.toSplit), l.rank < c.tables.members.length :=
      fun l hl => (List.getElem?_eq_some_iff.mp (hsources l hl)).1
    exact hvalid.mono (nodup_colorPids hvalid.nodup hranks hnodup color) fun pid hpid =>
      mem_of_mem_colorPids hranks hpid
  -- a member of the new communicator has asked for its color
  have hasked : ∀ pid ∈ colorPids c.tables.members (requests.filterMap (·.toSplit)) color,
      ∃ m ∈ requests, m.source = pid ∧ ∃ k, m.operation = .split color k := by
    intro pid hpid
    have hmem := (colorPids_perm hsources).mem_iff.mp hpid
    obtain ⟨l, hl, rfl⟩ := List.mem_map.mp hmem
    obtain ⟨hl, hcolor⟩ := List.mem_filter.mp hl
    obtain ⟨m, hm, hsource, hop, _⟩ := exists_split_request hround hl
    exact ⟨m, hm, hsource, l.key, (of_decide_eq_true hcolor) ▸ hop⟩
  unfold Communicator.colorJob
  split
  · rename_i hcolor
    refine ⟨hpids, ?_, ?_, ?_⟩
    · intro k
      rw [Job.audience, map_destination_splitReplies, map_destination_splitReplies]
      rfl
    · intro k m hm
      obtain ⟨j, hj, rfl⟩ := List.mem_mapIdx.mp hm
      obtain ⟨req, hreq, hsource, key, hop⟩ := hasked _ (List.getElem_mem hj)
      refine ⟨req, hreq, hsource, ?_⟩
      rw [hop]
      intro n hn
      have hk : k = n := Option.some.inj ((handle_infoFor _ j).symm.trans hn)
      refine ⟨hcolor, ⟨hk.symm, rfl⟩, ?_⟩
      exact List.getElem?_eq_getElem hj
    · intro k pid hpid
      obtain ⟨j, hj, rfl⟩ := List.mem_iff_getElem.mp hpid
      exact ⟨_, List.mem_mapIdx.mpr ⟨j, hj, rfl⟩, rfl, handle_infoFor _ j⟩
  · intro m hm
    obtain ⟨l, hl, rfl⟩ := List.mem_map.mp hm
    obtain ⟨req, hreq, hsource, hop, _⟩ := exists_split_request hround (List.mem_filter.mp hl).1
    refine ⟨rfl, req, hreq, hsource, ?_⟩
    rw [hop]
    intro n hn
    cases hn

/-- The job for a group answers all members. -/
theorem groupJob_serves (hround : c.IsRound requests) (hvalid : cfg.Valid c.tables.members)
    {group : List Pid} (hgroup : group.Nodup) (hsub : ∀ pid ∈ group, pid ∈ c.tables.members)
    (hop : ∀ m ∈ requests, m.operation = .group group) :
    (Job.create group (Communicator.groupReplies order c.tables.members group)).Serves cfg
      c.tables requests := by
  have hmember : ∀ pid ∈ c.tables.members, ∃ m ∈ requests, m.source = pid := by
    intro pid hpid
    rw [← hround.map_source] at hpid
    exact List.mem_map.mp hpid
  refine ⟨hvalid.mono hgroup hsub, ?_, ?_, ?_⟩
  · intro k
    rw [Job.audience, Communicator.map_destination_groupReplies,
      Communicator.map_destination_groupReplies]
  · intro k m hm
    rcases List.mem_append.mp hm with hm | hm
    · obtain ⟨j, hj, rfl⟩ := List.mem_mapIdx.mp hm
      obtain ⟨req, hreq, hsource⟩ := hmember _ (hsub _ (List.getElem_mem hj))
      refine ⟨req, hreq, hsource, ?_⟩
      rw [hop req hreq]
      intro n hn
      have hk : k = n := Option.some.inj ((handle_infoFor _ j).symm.trans hn)
      exact ⟨⟨rfl, List.getElem_mem hj⟩, ⟨hk.symm, rfl⟩, List.getElem?_eq_getElem hj⟩
    · obtain ⟨pid, hpid, rfl⟩ := List.mem_map.mp hm
      rw [(order.perm_elements _).mem_iff] at hpid
      obtain ⟨req, hreq, hsource⟩ :=
        hmember pid (List.mem_eraseDups.mp (List.mem_filter.mp hpid).1)
      refine ⟨req, hreq, hsource, ?_⟩
      rw [hop req hreq]
      intro n hn
      cases hn
  · intro k pid hpid
    obtain ⟨j, hj, rfl⟩ := List.mem_iff_getElem.mp hpid
    exact ⟨_, List.mem_append_left _ (List.mem_mapIdx.mpr ⟨j, hj, rfl⟩), rfl,
      handle_infoFor _ j⟩

/-- The job for a dup answers all members. -/
theorem dupJob_serves (hround : c.IsRound requests) (hvalid : cfg.Valid c.tables.members)
    (htables : c.tables = tablesSpec c.tables.members)
    (hop : ∀ m ∈ requests, m.operation = .dup) :
    ∀ job ∈ c.dupJobs, job.Serves cfg c.tables requests := by
  intro job hjob
  rw [Communicator.dupJobs, List.mem_singleton] at hjob
  subst hjob
  refine ⟨hvalid, fun k => by simp [Job.audience], ?_, ?_⟩
  · intro k m hm
    obtain ⟨pid, hpid, rfl⟩ := List.mem_map.mp hm
    rw [← hround.map_source] at hpid
    obtain ⟨req, hreq, hsource⟩ := List.mem_map.mp hpid
    refine ⟨req, hreq, hsource, ?_⟩
    rw [hop req hreq]
    intro n hn
    exact ⟨(Option.some.inj hn).symm, htables⟩
  · intro k pid hpid
    exact ⟨_, List.mem_map.mpr ⟨pid, hpid, rfl⟩, rfl, rfl⟩

/-- **The jobs of a round** answer its requests. -/
theorem jobs_serve (hround : c.IsRound requests) (hvalid : cfg.Valid c.tables.members)
    (htables : c.tables = tablesSpec c.tables.members)
    (hlegal : ∀ m ∈ requests, m.operation.Legal c.tables.members) :
    ∀ job ∈ c.jobs cfg order requests, job.Serves cfg c.tables requests := by
  intro job hjob
  cases requests with
  | nil => cases hjob
  | cons first others =>
      rw [Communicator.jobs] at hjob
      split at hjob
      · rename_i hopcodes
        have hopcode : ∀ m ∈ first :: others, m.operation.opcode = first.operation.opcode := by
          intro m hm
          rcases List.mem_cons.mp hm with rfl | hm
          · rfl
          · exact beq_iff_eq.mp (List.all_eq_true.mp hopcodes m hm)
        have hfirst := hlegal first List.mem_cons_self
        cases hop : first.operation with
        | split color key =>
            simp only [hop] at hjob
            obtain ⟨color, _, rfl⟩ := List.mem_map.mp hjob
            exact colorJob_serves hround hvalid color
        | group pids =>
            simp only [hop] at hjob
            rw [hop] at hfirst
            have hgroup : first.toGroup = some pids := by
              simp [CommunicatorRequest.toGroup, hop]
            rw [List.filterMap_cons_some hgroup, Communicator.groupJobs] at hjob
            split at hjob
            · rename_i hsame
              rw [List.mem_singleton] at hjob
              subst hjob
              refine groupJob_serves hround hvalid hfirst.1 hfirst.2 ?_
              intro m hm
              rcases List.mem_cons.mp hm with rfl | hothers
              · exact hop
              · have hm' := hopcode m hm
                rw [hop] at hm'
                obtain ⟨other, hother⟩ := Operation.exists_of_opcode_group hm'
                have hcast : m.toGroup = some other := by
                  simp [CommunicatorRequest.toGroup, hother]
                have hequal := List.all_eq_true.mp hsame other
                  (List.mem_filterMap.mpr ⟨m, hothers, hcast⟩)
                rw [hother, beq_iff_eq.mp hequal]
            · cases hjob
        | dup =>
            simp only [hop] at hjob
            refine dupJob_serves hround hvalid htables ?_ job hjob
            intro m hm
            have hm' := hopcode m hm
            rw [hop] at hm'
            exact Operation.eq_dup_of_opcode hm'
        | free => rw [hop] at hfirst; exact hfirst.elim
        | finalize => rw [hop] at hfirst; exact hfirst.elim
      · cases hjob

/-- Requests that do not agree lead to no jobs. -/
theorem agree_of_jobs_ne_nil (hjobs : c.jobs cfg order requests ≠ []) : Agree requests := by
  cases requests with
  | nil => exact absurd rfl hjobs
  | cons first others =>
      rw [Communicator.jobs] at hjobs
      split at hjobs
      · rename_i hopcodes
        have hopcode : ∀ m ∈ first :: others, m.operation.opcode = first.operation.opcode := by
          intro m hm
          rcases List.mem_cons.mp hm with rfl | hm
          · rfl
          · exact beq_iff_eq.mp (List.all_eq_true.mp hopcodes m hm)
        have hgroup : ∀ m ∈ first :: others, m.toGroup = first.toGroup := by
          intro m hm
          by_cases hop : first.operation.opcode = (Operation.group []).opcode
          · obtain ⟨pids, hpids⟩ := Operation.exists_of_opcode_group hop
            have hfirst : first.toGroup = some pids := by
              simp [CommunicatorRequest.toGroup, hpids]
            simp only [hpids] at hjobs
            rw [List.filterMap_cons_some hfirst, Communicator.groupJobs] at hjobs
            split at hjobs
            · rename_i hsame
              rcases List.mem_cons.mp hm with rfl | hothers
              · rfl
              · obtain ⟨other, hother⟩ := Operation.exists_of_opcode_group ((hopcode m hm).trans hop)
                have hcast : m.toGroup = some other := by
                  simp [CommunicatorRequest.toGroup, hother]
                have hequal := List.all_eq_true.mp hsame other
                  (List.mem_filterMap.mpr ⟨m, hothers, hcast⟩)
                rw [hcast, hfirst, beq_iff_eq.mp hequal]
            · exact absurd rfl hjobs
          · rw [CommunicatorRequest.toGroup_eq_none hop,
              CommunicatorRequest.toGroup_eq_none (by rw [hopcode m hm]; exact hop)]
        intro m hm m' hm'
        exact ⟨(hopcode m hm).trans (hopcode m' hm').symm, (hgroup m hm).trans (hgroup m' hm').symm⟩
      · exact absurd rfl hjobs

/-- What a job that answers requests does at a server with state `s`: a
communicator at most comes to the end of the list, its members learn its number,
and every reply suits the request it is for. -/
structure Job.Effect (cfg : Config) (s : State) (parent : Tables)
    (requests : List CommunicatorRequest) (job : Job) (s' : State) (ms : List Reply) :
    Prop where
  server : s' = s ∨ ∃ pids, cfg.Valid pids ∧
    s' = s ++ [some (Communicator.fresh s.length (tablesSpec pids))] ∧
    ∀ pid ∈ pids, ∃ m ∈ ms, m.destination = pid ∧ m.body.handle = some s.length
  destinations : ms.map Reply.destination = job.audience
  suits : ∀ m ∈ ms, ∃ req ∈ requests, req.source = m.destination ∧
    Suits (fun n t => ∃ c, s'[n]? = some (some c) ∧ c.tables = t) parent m.destination
      req.operation m.body

/-- **A job that answers requests** goes through. -/
theorem run_of_serves {parent : Tables} {job : Job} (hjob : job.Serves cfg parent requests)
    (hknown : ∀ m ∈ requests, cfg.IsApplication m.source) (s : State) :
    ∃ s' ms, job.run cfg s = some (s', ms) ∧ job.Effect cfg s parent requests s' ms := by
  cases job with
  | create pids replies =>
      refine ⟨s ++ [some (Communicator.fresh s.length (tablesSpec pids))],
        replies (Communicator.fresh s.length (tablesSpec pids)), ?_, ?_, hjob.audience _, ?_⟩
      · rw [Job.run, createCommunicator_eq s hjob.valid.application, Option.map_some,
          enqueueReplies_eq]
        intro m hm
        obtain ⟨req, hreq, hsource, _⟩ := hjob.suits _ m hm
        exact hsource ▸ (hknown req hreq).cluster_lt
      · exact Or.inr ⟨pids, hjob.valid, rfl, hjob.tells _⟩
      · intro m hm
        obtain ⟨req, hreq, hsource, hsuits⟩ := hjob.suits _ m hm
        refine ⟨req, hreq, hsource, hsuits.mono ?_⟩
        intro n t hl
        obtain ⟨rfl, rfl⟩ := hl
        exact ⟨_, List.getElem?_concat_length, rfl⟩
  | tell replies =>
      refine ⟨s, replies, ?_, Or.inl rfl, rfl, ?_⟩
      · rw [Job.run, enqueueReplies_eq]
        intro m hm
        obtain ⟨_, req, hreq, hsource, _⟩ := hjob m hm
        exact hsource ▸ (hknown req hreq).cluster_lt
      · intro m hm
        obtain ⟨_, req, hreq, hsource, hsuits⟩ := hjob m hm
        exact ⟨req, hreq, hsource, hsuits.mono fun _ _ h => h.elim⟩
  | free number => exact hjob.elim

/-- The replies of a row of jobs. -/
theorem runJobs_destinations {parent : Tables} {jobs : List Job}
    (hjobs : ∀ job ∈ jobs, job.Serves cfg parent requests)
    (hknown : ∀ m ∈ requests, cfg.IsApplication m.source) (s : State) :
    (runJobs cfg s jobs).2.map Reply.destination = jobs.flatMap Job.audience := by
  induction jobs generalizing s with
  | nil => rfl
  | cons job jobs ih =>
      obtain ⟨s', ms, hrun, heffect⟩ := run_of_serves (hjobs job List.mem_cons_self) hknown s
      have hrest := ih (fun j hj => hjobs j (List.mem_cons_of_mem _ hj)) s'
      rw [runJobs, hrun, List.flatMap_cons, List.map_append, heffect.destinations, hrest]

/-- **Every member is answered once**, if the requests agree. -/
theorem audience_perm (hround : c.IsRound requests) (hvalid : cfg.Valid c.tables.members)
    (htables : c.tables = tablesSpec c.tables.members)
    (hlegal : ∀ m ∈ requests, m.operation.Legal c.tables.members) (hagree : Agree requests) :
    ((c.jobs cfg order requests).flatMap Job.audience).Perm c.tables.members := by
  have hserve := @jobs_serve cfg order _ _ hround hvalid htables hlegal
  have hmember : ∀ m ∈ requests, m.source ∈ c.tables.members := fun m hm =>
    hround.map_source ▸ List.mem_map_of_mem hm
  have hknown : ∀ m ∈ requests, cfg.IsApplication m.source := fun m hm =>
    hvalid.application _ (hmember m hm)
  have hcount : ∀ pid ∈ c.tables.members,
      ((c.jobs cfg order requests).flatMap Job.audience).count pid = 1 := by
    intro pid hpid
    rw [← runJobs_destinations hserve hknown [], ← processRequest_eq]
    exact processRequest_destinations hround hvalid hagree
      (fun m hm => (hlegal m hm).fromClient hvalid _) hpid
  have hsub : ∀ pid ∈ (c.jobs cfg order requests).flatMap Job.audience,
      pid ∈ c.tables.members := by
    intro pid hpid
    obtain ⟨job, hjob, hpid⟩ := List.mem_flatMap.mp hpid
    have hjob' := hserve job hjob
    cases job with
    | create pids replies =>
        obtain ⟨m, hm, rfl⟩ := List.mem_map.mp hpid
        obtain ⟨req, hreq, hsource, _⟩ := hjob'.suits _ m hm
        exact hsource ▸ hmember req hreq
    | tell replies =>
        obtain ⟨m, hm, rfl⟩ := List.mem_map.mp hpid
        obtain ⟨_, req, hreq, hsource, _⟩ := hjob' m hm
        exact hsource ▸ hmember req hreq
    | free number => exact hjob'.elim
  have hnodup : ((c.jobs cfg order requests).flatMap Job.audience).Nodup := by
    rw [List.nodup_iff_count_le_one]
    intro pid
    by_cases hpid : pid ∈ (c.jobs cfg order requests).flatMap Job.audience
    · exact Nat.le_of_eq (hcount pid (hsub pid hpid))
    · rw [List.count_eq_zero_of_not_mem hpid]
      exact Nat.zero_le 1
  refine (List.perm_ext_iff_of_nodup hnodup hvalid.nodup).mpr fun pid => ⟨hsub pid, ?_⟩
  intro hpid
  rw [← List.count_pos_iff, hcount pid hpid]
  exact Nat.one_pos

end Round

end Server

end EsalsaMpi
