import EsalsaMpi.System

/-!
# What a create is for

All members of a communicator ask for a communicator with the same group of
members.  The server answers each of them once: with the place in the group, or,
outside of it, with whether the group has a process of the same cluster.  The
members of a cluster then all take part in the local `PMPI_Comm_create`, with
the same list, or all stay away from it (`createsGroup_of_requests`).
-/

namespace EsalsaMpi

open FirstOccurrence

variable {cfg : Server.Config} {order : Server.HashOrder} {st : Server.State}
  {members group : List Pid} {n : Nat}

namespace Process

/-- What `EMPI_Comm_create` and `local_comm_create` pass to `PMPI_Group_incl` for
the call of `PMPI_Comm_create` at the process `p`; `none` if it does not make the
call. -/
def localCreateRanks (p : Process) (group : List Pid) (type : Server.GroupType) :
    Option (List Nat) :=
  if type = .idle then
    none
  else
    let localMembers :=
      (group.filter fun q => getClusterRank q = p.clusterRank).map getProcessRank
    if localMembers.length = 0 then none else some localMembers

/-- What the client does with its reply goes through these ranks. -/
theorem finishCreate_eq (p : Process) (c : Communicator) (group : List Pid)
    (info : Server.CommInfo) (type : Server.GroupType) :
    p.finishCreate c group info type =
      match p.localCreateRanks group type with
      | none => some p
      | some ranks =>
        ((p.comms 0).bind fun world => (pmpiGroupIncl world.comm ranks).bind fun newGroup =>
          pmpiCommCreate c.comm newGroup p.pid).bind fun
            | none => some p
            | some comm => p.createCommunicator info comm := by
  rw [finishCreate, localCreateRanks]
  split
  · rfl
  · rw [localCommCreate]
    simp only
    split <;> rfl

end Process

/-- The requests of the members for a create, in the order of the ranks. -/
def groupRequests (n : Nat) (members group : List Pid) : List Server.CommunicatorRequest :=
  members.mapIdx fun r pid => ⟨pid, n, r, .group group⟩

/-- What a create of `group` by `members` leads to: the replies of a server with
state `st`, and what each process does with its own. -/
structure CreatesGroup (members group : List Pid) (st : Server.State)
    (replies : List Server.Reply) : Prop where
  destinations : (replies.map Server.Reply.destination).Perm members
  inside : ∀ m ∈ replies, m.destination ∈ group → ∃ j : Nat, group[j]? = some m.destination ∧
    m.body = .group ((Server.Communicator.fresh st.length
      (Server.tablesSpec group)).infoFor j) .active
  outside : ∀ m ∈ replies, m.destination ∉ group → ∃ info, m.body = .group info
    (if ∃ q ∈ group, getClusterRank q = getClusterRank m.destination then .seperatist else .idle)
  agree : ∀ m ∈ replies, ∀ m' ∈ replies,
    getClusterRank m.destination = getClusterRank m'.destination →
      ∀ (p p' : Process) info info' type type', p.pid = m.destination →
        p'.pid = m'.destination → m.body = .group info type → m'.body = .group info' type' →
          p.localCreateRanks group type = p'.localCreateRanks group type'

/-- What a process passes to the local create depends on its cluster only. -/
theorem localCreateRanks_eq {p : Process} {type : Server.GroupType}
    (htype : type = .idle ↔ ¬ ∃ q ∈ group, getClusterRank q = getClusterRank p.pid) :
    p.localCreateRanks group type =
      if ∃ q ∈ group, getClusterRank q = getClusterRank p.pid then
        some ((group.filter fun q => getClusterRank q = getClusterRank p.pid).map getProcessRank)
      else
        none := by
  rw [Process.localCreateRanks]
  by_cases hany : ∃ q ∈ group, getClusterRank q = getClusterRank p.pid
  · have hactive : ¬ type = .idle := fun hidle => htype.mp hidle hany
    have hsome : ¬ ((group.filter fun q =>
        getClusterRank q = getClusterRank p.pid).map getProcessRank).length = 0 := by
      obtain ⟨q, hq, hcluster⟩ := hany
      rw [List.length_map, List.length_eq_zero_iff, List.filter_eq_nil_iff]
      intro hnone
      exact hnone q hq (decide_eq_true hcluster)
    rw [if_neg hactive, if_pos hany]
    exact if_neg hsome
  · rw [if_pos (htype.mpr hany), if_neg hany]

/-- The replies of a create. -/
theorem createsGroup_createResult (hvalid : cfg.Valid members) (hgroup : group.Nodup)
    (hsub : ∀ pid ∈ group, pid ∈ members) :
    CreatesGroup members group st (createResult order st members group).2 := by
  have hinside : ∀ m ∈ group.mapIdx (fun j pid => (⟨pid, .group ((Server.Communicator.fresh
      st.length (Server.tablesSpec group)).infoFor j) .active⟩ : Server.Reply)),
      ∃ j : Nat, group[j]? = some m.destination ∧ m.body = .group
        ((Server.Communicator.fresh st.length (Server.tablesSpec group)).infoFor j) .active := by
    intro m hm
    obtain ⟨j, hj, rfl⟩ := List.mem_mapIdx.mp hm
    exact ⟨j, List.getElem?_eq_getElem hj, rfl⟩
  have houtside : ∀ m ∈ (order.elements (members.eraseDups.filter fun pid => pid ∉ group)).map
      (fun pid => Server.outsiderGroupReply pid
        (Server.getClusterRank pid ∈ group.map Server.getClusterRank)),
      m.destination ∉ group ∧ ∃ info, m.body = .group info
        (if ∃ q ∈ group, getClusterRank q = getClusterRank m.destination then .seperatist
          else .idle) := by
    intro m hm
    obtain ⟨pid, hpid, rfl⟩ := List.mem_map.mp hm
    rw [(order.perm_elements _).mem_iff] at hpid
    have hoverlap : Server.getClusterRank pid ∈ group.map Server.getClusterRank ↔
        ∃ q ∈ group, getClusterRank q = getClusterRank pid := by
      simp [Server.getClusterRank_eq_client]
    refine ⟨of_decide_eq_true (List.mem_filter.mp hpid).2, ⟨-1, -1, -1, -1, -1, Server.noTables⟩, ?_⟩
    simp only [Server.outsiderGroupReply, decide_eq_true_eq, hoverlap]
  have hreplies : ∀ m ∈ (createResult order st members group).2,
      (m.destination ∈ group → ∃ j : Nat, group[j]? = some m.destination ∧ m.body = .group
        ((Server.Communicator.fresh st.length (Server.tablesSpec group)).infoFor j) .active) ∧
      (m.destination ∉ group → ∃ info, m.body = .group info
        (if ∃ q ∈ group, getClusterRank q = getClusterRank m.destination then .seperatist
          else .idle)) := by
    intro m hm
    rcases List.mem_append.mp hm with hm | hm
    · obtain ⟨j, hj, hbody⟩ := hinside m hm
      exact ⟨fun _ => ⟨j, hj, hbody⟩, fun hnot => absurd (List.mem_of_getElem? hj) hnot⟩
    · obtain ⟨hnot, hbody⟩ := houtside m hm
      exact ⟨fun hin => absurd hin hnot, fun _ => hbody⟩
  refine ⟨?_, fun m hm => (hreplies m hm).1, fun m hm => (hreplies m hm).2, ?_⟩
  · have hknown : ∀ pid ∈ group, cfg.IsApplication pid :=
      fun pid hpid => hvalid.application pid (hsub pid hpid)
    have hdestinations := @Server.processGroup_destinations cfg order st
      (Server.Communicator.fresh 0 (Server.tablesSpec members)) group [] (by simp) hknown
      hvalid.application
    rw [Server.processGroup_eq (by simp) hknown hvalid.application] at hdestinations
    refine hdestinations.trans ((List.perm_ext_iff_of_nodup ?_ hvalid.nodup).mpr ?_)
    · refine List.nodup_append.mpr ⟨hgroup, (nodup_eraseDups _).filter _, ?_⟩
      intro pid hpid other hother heq
      subst heq
      exact absurd hpid (of_decide_eq_true (List.mem_filter.mp hother).2)
    · intro pid
      rw [List.mem_append, List.mem_filter, List.mem_eraseDups, decide_eq_true_eq]
      constructor
      · rintro (hin | ⟨hmember, _⟩)
        · exact hsub pid hin
        · exact hmember
      · intro hmember
        by_cases hin : pid ∈ group
        · exact Or.inl hin
        · exact Or.inr ⟨hmember, hin⟩
  · intro m hm m' hm' hcluster p p' info info' type type' hp hp' hbody hbody'
    have htype : ∀ {m : Server.Reply}, m ∈ (createResult order st members group).2 →
        ∀ {info type}, m.body = .group info type →
          (type = .idle ↔ ¬ ∃ q ∈ group, getClusterRank q = getClusterRank m.destination) := by
      intro m hm info type hbody
      by_cases hin : m.destination ∈ group
      · obtain ⟨j, _, hactive⟩ := (hreplies m hm).1 hin
        cases hbody.symm.trans hactive
        simpa using ⟨m.destination, hin, rfl⟩
      · obtain ⟨_, hother⟩ := (hreplies m hm).2 hin
        cases hbody.symm.trans hother
        split <;> simp [*]
    rw [localCreateRanks_eq (hp ▸ htype hm hbody), localCreateRanks_eq (hp' ▸ htype hm' hbody'),
      hp, hp', hcluster]

/-- **What the server and the clients do for a create**, whatever the order in
which the requests arrive. -/
theorem createsGroup_of_requests {arrived : List Server.CommunicatorRequest}
    (hvalid : cfg.Valid members) (hgroup : group.Nodup) (hsub : ∀ pid ∈ group, pid ∈ members)
    (hlive : st[n]? = some (some (Server.Communicator.fresh n (Server.tablesSpec members))))
    (harrived : arrived.Perm (groupRequests n members group)) :
    CreatesGroup members group st (Server.deliverAll cfg order st arrived).2 := by
  have hrow : groupRequests n members group = (Collective.create group).row n members := rfl
  rw [hrow] at harrived
  cases members with
  | nil =>
      have hnone : arrived = [] := List.perm_nil.mp harrived
      rw [hnone]
      exact ⟨List.Perm.refl _, by simp [Server.deliverAll], by simp [Server.deliverAll],
        by simp [Server.deliverAll]⟩
  | cons first rest =>
      have hlength : ((Collective.create group).row n (first :: rest)).length =
          (Server.tablesSpec (first :: rest)).members.length := by
        simp [Collective.row, Server.tablesSpec]
      have hcreate := @processRequest_create cfg order group rest st (Server.Communicator.full n
        (Server.tablesSpec (first :: rest)) ((Collective.create group).row n (first :: rest)))
        n first rfl hvalid hgroup hsub
      rw [Server.deliverAll_eq hlive (isRow_row _ _ _) hlength harrived, hcreate.1]
      exact createsGroup_createResult hvalid hgroup hsub

/-- A create of a communicator of one process in a world of two. -/
theorem createsGroup_pair :
    CreatesGroup (Server.worldMembers .pair) [setPid 1 0]
      [some (Server.Communicator.fresh 0 (Server.tablesSpec (Server.worldMembers .pair))), none,
        none]
      (Server.deliverAll .pair .insertion
        [some (Server.Communicator.fresh 0 (Server.tablesSpec (Server.worldMembers .pair))), none,
          none]
        (groupRequests 0 (Server.worldMembers .pair) [setPid 1 0]).reverse).2 :=
  createsGroup_of_requests (Server.valid_worldMembers .pair) (by decide)
    (List.forall_mem_singleton.mpr (by decide)) rfl (List.reverse_perm _)

end EsalsaMpi
