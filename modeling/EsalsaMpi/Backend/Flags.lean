import EsalsaMpi.Backend.Calls
import EsalsaMpi.Server.Jobs
import EsalsaMpi.System

/-!
# The flags of a communicator

`comm_is_local` decides by the flags whether a collective operation stays in
the cluster.  The server computes them for every communicator it creates, a dup
takes over those of its parent, and the client sets those of the world: in every
run, `comm_is_local` holds exactly for the communicators whose members are in
one cluster (`commIsLocal_iff`).
-/

namespace EsalsaMpi

/-- `comm_is_local`. -/
def Communicator.commIsLocal (c : Communicator) : Bool :=
  c.flags &&& commFlagLocal != 0 && c.flags &&& commFlagRemote == 0

/-- There are members, and they are in one cluster. -/
def OneCluster (members : List Pid) : Prop :=
  members ≠ [] ∧ ∀ q ∈ members, ∀ q' ∈ members, getClusterRank q = getClusterRank q'

/-- The flags tell whether the members are in one cluster. -/
def FlagsFit (flags : Nat) (members : List Pid) : Prop :=
  (flags &&& commFlagLocal ≠ 0 ∧ flags &&& commFlagRemote = 0) ↔ OneCluster members

theorem flagsFit_generateFlags (members : List Pid) :
    FlagsFit (Server.generateFlags members) members := by
  cases members with
  | nil => simp [FlagsFit, Server.generateFlags, OneCluster]
  | cons pid rest =>
      rw [FlagsFit, Server.generateFlags]
      by_cases hall : rest.all fun other => Server.getClusterRank pid == Server.getClusterRank other
      · rw [if_pos hall]
        refine iff_of_true (by decide) ⟨List.cons_ne_nil _ _, ?_⟩
        have hsame : ∀ q ∈ pid :: rest, getClusterRank q = getClusterRank pid := by
          intro q hq
          rcases List.mem_cons.mp hq with rfl | hq
          · rfl
          · have heq := beq_iff_eq.mp (List.all_eq_true.mp hall q hq)
            rw [Server.getClusterRank_eq_client, Server.getClusterRank_eq_client] at heq
            exact heq.symm
        exact fun q hq q' hq' => (hsame q hq).trans (hsame q' hq').symm
      · rw [if_neg hall]
        refine iff_of_false (by decide) ?_
        rintro ⟨_, hsame⟩
        refine hall (List.all_eq_true.mpr fun other hother => beq_iff_eq.mpr ?_)
        rw [Server.getClusterRank_eq_client, Server.getClusterRank_eq_client]
        exact hsame pid List.mem_cons_self other (List.mem_cons_of_mem _ hother)

/-- What a reply tells of a new communicator. -/
def Server.ReplyBody.Flagged : Server.ReplyBody → Prop
  | .split info _ _ => 0 ≤ info.newComm → FlagsFit info.flags.toNat info.tables.members
  | .group info _ => 0 ≤ info.newComm → FlagsFit info.flags.toNat info.tables.members
  | _ => True

namespace Server

variable {cfg : Config} {order : HashOrder}

theorem flagged_infoFor (com : Communicator) (j : Nat) :
    FlagsFit (com.infoFor j).flags.toNat (com.infoFor j).tables.members :=
  flagsFit_generateFlags com.tables.members

/-- The replies of a job tell the flags that fit. -/
def Job.Flagged : Job → Prop
  | .create _ replies => ∀ com, ∀ m ∈ replies com, m.body.Flagged
  | .tell replies => ∀ m ∈ replies, m.body.Flagged
  | .free _ => True

theorem flagged_jobs (c : Communicator) (requests : List CommunicatorRequest) :
    ∀ job ∈ c.jobs cfg order requests, job.Flagged := by
  intro job hjob
  cases requests with
  | nil => cases hjob
  | cons first others =>
      rw [Communicator.jobs] at hjob
      split at hjob
      · cases hop : first.operation with
        | split color key =>
            simp only [hop] at hjob
            obtain ⟨k, _, rfl⟩ := List.mem_map.mp hjob
            unfold Communicator.colorJob
            split
            · intro com m hm
              obtain ⟨j, hj, rfl⟩ := List.mem_mapIdx.mp hm
              exact fun _ => flagged_infoFor com j
            · intro m hm
              obtain ⟨l, _, rfl⟩ := List.mem_map.mp hm
              exact fun h => absurd h (by decide)
        | group pids =>
            simp only [hop] at hjob
            unfold Communicator.groupJobs at hjob
            split at hjob
            · cases hjob
            · split at hjob
              · rw [List.mem_singleton] at hjob
                subst hjob
                intro com m hm
                rcases List.mem_append.mp hm with hm | hm
                · obtain ⟨j, hj, rfl⟩ := List.mem_mapIdx.mp hm
                  exact fun _ => flagged_infoFor com j
                · obtain ⟨pid, _, rfl⟩ := List.mem_map.mp hm
                  exact fun h => absurd h (by decide)
              · cases hjob
        | dup =>
            simp only [hop, Communicator.dupJobs, List.mem_singleton] at hjob
            subst hjob
            intro com m hm
            obtain ⟨pid, _, rfl⟩ := List.mem_map.mp hm
            trivial
        | free =>
            simp only [hop, List.mem_singleton] at hjob
            subst hjob
            trivial
        | finalize =>
            simp only [hop, Communicator.finalizeJobs] at hjob
            split at hjob
            · rcases List.mem_cons.mp hjob with rfl | hjob
              · trivial
              · rw [List.mem_singleton] at hjob
                subst hjob
                intro m hm
                obtain ⟨pid, _, rfl⟩ := List.mem_map.mp hm
                trivial
            · cases hjob
      · cases hjob

/-- The replies of a row of jobs. -/
theorem flagged_runJobs {jobs : List Job} (h : ∀ job ∈ jobs, job.Flagged) (s : State) :
    ∀ m ∈ (runJobs cfg s jobs).2, m.body.Flagged := by
  induction jobs generalizing s with
  | nil =>
      intro m hm
      cases hm
  | cons job jobs ih =>
      rw [runJobs]
      cases hrun : job.run cfg s with
      | none =>
          intro m hm
          cases hm
      | some result =>
          intro m hm
          rcases List.mem_append.mp hm with hm | hm
          · have hjob := h job List.mem_cons_self
            cases job with
            | create pids replies =>
                obtain ⟨created, _, rfl⟩ := Option.map_eq_some_iff.mp hrun
                exact hjob created.2 m (List.mem_filter.mp hm).1
            | tell replies =>
                cases hrun
                exact hjob m (List.mem_filter.mp hm).1
            | free number =>
                cases hrun
                cases hm
          · exact ih (fun j hj => h j (List.mem_cons_of_mem _ hj)) _ m hm

/-- **Every reply of the server** tells the flags that fit. -/
theorem flagged_deliverAll (s : State) (reqs : List CommunicatorRequest) :
    ∀ m ∈ (deliverAll cfg order s reqs).2, m.body.Flagged := by
  induction reqs generalizing s with
  | nil =>
      intro m hm
      cases hm
  | cons req reqs ih =>
      intro m hm
      rcases List.mem_append.mp hm with hm | hm
      · have heq := congrArg Prod.snd (@deliverRequest_eq cfg order s req)
        rw [show (deliverRequest cfg order s req).2.replies = _ from heq] at hm
        refine flagged_runJobs ?_ _ m hm
        rcases @admitRequest_cases cfg order s req with hsame | ⟨c, _, _, ⟨_, h⟩ | ⟨_, h⟩⟩
        · rw [hsame]
          intro job hjob
          cases hjob
        · rw [h]
          intro job hjob
          cases hjob
        · rw [h]
          exact flagged_jobs _ _
      · exact ih _ m hm

end Server

/-- A communicator whose flags fit its members. -/
def Communicator.Flagged (c : Communicator) : Prop := FlagsFit c.flags c.tables.members

theorem Communicator.Flagged.commIsLocal_iff {c : Communicator} (h : c.Flagged) :
    c.commIsLocal = true ↔ OneCluster c.tables.members := by
  rw [← show _ ↔ OneCluster c.tables.members from h, commIsLocal]
  simp

/-- The table of a process after it has registered a communicator. -/
theorem flagged_addCommunicator {p p' : Process} {newComm : Int} {initial : Bool}
    {c : Communicator} (h : p.addCommunicator newComm initial c = some p')
    (hflags : FlagsFit c.flags c.tables.members)
    (hold : ∀ i c', p.comms i = some c' → c'.Flagged) :
    ∀ i c', p'.comms i = some c' → c'.Flagged := by
  unfold Process.addCommunicator at h
  split at h
  · cases h
  · split at h
    · cases h
    · split at h
      · cases h
      · cases h
        intro i c' hc'
        simp only at hc'
        split at hc'
        · cases hc'
          exact hflags
        · exact hold i c' hc'

/-- A call leaves a table in which all flags fit. -/
theorem flagged_finish {op : Collective} {replies : List Server.Reply} {p p' : Process}
    {c : Communicator} (h : op.finish replies p c = some p')
    (hreplies : ∀ m ∈ replies, m.body.Flagged) (hc : c.Flagged)
    (hold : ∀ i c', p.comms i = some c' → c'.Flagged) :
    ∀ i c', p'.comms i = some c' → c'.Flagged := by
  have hcreate : ∀ info comm, (0 ≤ info.newComm → FlagsFit info.flags.toNat info.tables.members) →
      p.createCommunicator info comm = some p' → ∀ i c', p'.comms i = some c' → c'.Flagged := by
    intro info comm hflags hadd
    refine flagged_addCommunicator hadd (hflags ?_) hold
    exact (addCommunicator_eq_some hadd).1
  have hbody : ∀ body, replyTo replies p.pid = some body → body.Flagged := by
    intro body hbody
    obtain ⟨m, hm, rfl⟩ := Option.map_eq_some_iff.mp hbody
    exact hreplies m (List.mem_of_find?_eq_some hm)
  unfold Collective.finish at h
  split at h
  · rename_i hreply
    unfold Process.finishSplit at h
    split at h
    · cases h
      exact hold
    · exact hcreate _ _ (hbody _ hreply) h
  · rename_i hreply
    unfold Process.finishCreate at h
    split at h
    · cases h
      exact hold
    · obtain ⟨comm, _, h⟩ := Option.bind_eq_some_iff.mp h
      cases comm with
      | none =>
          cases h
          exact hold
      | some comm => exact hcreate _ _ (hbody _ hreply) h
  · exact flagged_addCommunicator h hc hold
  · cases h

namespace System

variable {cfg : Server.Config} {order : Server.HashOrder} {s s' : System}

/-- All flags at the processes fit. -/
def Flagged (s : System) : Prop :=
  ∀ pid p, s.processes pid = some p → ∀ i c, p.comms i = some c → c.Flagged

theorem flagged_step (h : s.Flagged) (hstep : Step cfg order s s') : s'.Flagged := by
  cases hstep with
  | @collective n op sc sent arrived hlive hlegal hsent harrived =>
      intro pid p' hp'
      by_cases hmember : pid ∈ sc.tables.members
      · simp only [after, if_pos hmember] at hp'
        obtain ⟨p, hp, hp'⟩ := Option.bind_eq_some_iff.mp hp'
        obtain ⟨c, hc, hp'⟩ := Option.bind_eq_some_iff.mp hp'
        exact flagged_finish hp' (Server.flagged_deliverAll _ _) (h pid p hp n c hc) (h pid p hp)
      · simp only [after, if_neg hmember] at hp'
        exact h pid p' hp'

theorem flagged_start (server : Server.State) : (start cfg server).Flagged := by
  intro pid p hp
  obtain ⟨happ, hp⟩ := start_processes hp
  -- the world, and the two communicators without a place in other clusters
  have hfirst := cfg.isApplication_first (Nat.lt_trans Nat.zero_lt_one cfg.one_lt_clusters)
  have hsecond := cfg.isApplication_first cfg.one_lt_clusters
  have hworld : ¬ OneCluster (Server.worldMembers cfg) := by
    rintro ⟨_, hsame⟩
    have heq := hsame _ (Server.mem_worldMembers.mpr hfirst) _ (Server.mem_worldMembers.mpr hsecond)
    rw [getClusterRank_setPid (by decide) (by decide),
      getClusterRank_setPid (by decide) (by decide)] at heq
    cases heq
  rw [initCommunicators] at hp
  obtain ⟨p₀, hp₀, hp⟩ := Option.bind_eq_some_iff.mp hp
  obtain ⟨p₁, hp₁, hp⟩ := Option.bind_eq_some_iff.mp hp
  refine flagged_addCommunicator hp ?_ (flagged_addCommunicator hp₁ ?_
    (flagged_addCommunicator hp₀ ?_ fun i c hc => by cases hc))
  · refine iff_of_false (by decide) ?_
    rintro ⟨hne, _⟩
    exact hne rfl
  · have hflags : (commFlagSelf ||| commFlagLocal) &&& commFlagLocal ≠ 0 ∧
        (commFlagSelf ||| commFlagLocal) &&& commFlagRemote = 0 := by decide
    refine iff_of_true hflags ⟨List.cons_ne_nil _ _, ?_⟩
    intro q hq q' hq'
    rw [List.mem_singleton.mp hq, List.mem_singleton.mp hq']
  · have hflags : (worldCommunicator cfg.applicationSizes (getClusterRank pid)
        (getProcessRank pid)).flags = commFlagWorld ||| commFlagLocal ||| commFlagRemote := by
      simp [worldCommunicator, cfg.one_lt_clusters]
    rw [worldCommunicator_tables, hflags]
    exact iff_of_false (by decide) hworld

/-- **`comm_is_local`** holds for the communicators whose members are in one
cluster. -/
theorem commIsLocal_iff (h : Reachable cfg order s) {pid : Pid} {p : Process} {i : Nat}
    {c : Communicator} (hp : s.processes pid = some p) (hc : p.comms i = some c) :
    c.commIsLocal = true ↔ OneCluster c.tables.members := by
  have hflagged : s.Flagged := by
    clear hp
    obtain ⟨server, _, hrun⟩ := h
    induction hrun with
    | refl => exact flagged_start server
    | tail hrun hstep ih => exact flagged_step ih hstep
  exact (hflagged pid p hp i c hc).commIsLocal_iff

end System

end EsalsaMpi
