import EsalsaMpi.Backend.Mirror
import EsalsaMpi.Server.Delivery
import Mathlib.Logic.Relation

/-!
# The server and its clients

A run performs collective operations on communicators: a split, a create or a
dup.  In each, all members send their requests, which reach the server in any
order, and continue with the reply they get; the local parts of the operation
are collective calls of the MPI libraries of the clusters.  A process that
ends in an error takes part in nothing more.

`System.Inv` states how the tables of the three parties fit together: the
communicators of the server are those of valid member lists, every member that
is still running mirrors them, and nobody knows a communicator that the server
does not have.  It holds in every reachable state (`System.inv_of_reachable`).
-/

namespace EsalsaMpi

open FirstOccurrence

/-- A collective operation: for a split, what each process passes as color and
key, and for a create the group that all pass. -/
inductive Collective where
  | split (color key : Pid → Int)
  | create (group : List Pid)
  | dup

namespace Collective

/-- What the process `p` sends for its communicator `c`. -/
def request (op : Collective) (p : Process) (c : Communicator) :
    Server.CommunicatorRequest :=
  match op with
  | .split color key => p.splitRequest c (color p.pid) (key p.pid)
  | .create group => p.createRequest c group
  | .dup => p.dupRequest c

/-- What the request of a process asks for. -/
def operation (op : Collective) (pid : Pid) : Server.Operation :=
  match op with
  | .split color key =>
    .split (splitColorKey (color pid) (key pid)).1 (splitColorKey (color pid) (key pid)).2
  | .create group => .group group
  | .dup => .dup

/-- A group to create is a subset of the members. -/
def Legal (op : Collective) (members : List Pid) : Prop :=
  match op with
  | .create group => group.Nodup ∧ ∀ pid ∈ group, pid ∈ members
  | _ => True

end Collective

/-- The reply that a process receives. -/
def replyTo (replies : List Server.Reply) (pid : Pid) : Option Server.ReplyBody :=
  (replies.find? fun m => m.destination = pid).map (·.body)

/-- What a process passes to the local split, given the replies. -/
def localSplitArgs (replies : List Server.Reply) (pid : Pid) : Int × Int :=
  match replyTo replies pid with
  | some (.split _ color key) => localColorKey color key
  | _ => (mpiUndefined, 0)

/-- What a process makes of its reply.  A reply with another opcode ends it. -/
def Collective.finish (op : Collective) (replies : List Server.Reply) (p : Process)
    (c : Communicator) : Option Process :=
  match op, replyTo replies p.pid with
  | .split _ _, some (.split info _ _) => p.finishSplit c info (localSplitArgs replies)
  | .create group, some (.group info type) => p.finishCreate c group info type
  | .dup, some (.dup newComm) => p.finishDup c newComm
  | _, _ => none

/-- The server and the processes that are running. -/
structure System where
  server : Server.State
  processes : Pid → Option Process

namespace System

/-- The requests of the members for the communicator `n`, when all of them are
running and know it. -/
def requests (s : System) (n : Nat) (op : Collective) (members : List Pid) :
    Option (List Server.CommunicatorRequest) :=
  members.mapM fun pid =>
    (s.processes pid).bind fun p => (p.comms n).map (op.request p)

variable (cfg : Server.Config) (order : Server.HashOrder)

/-- The state after the operation `op` on communicator `n`, whose requests
arrived as listed. -/
def after (s : System) (n : Nat) (op : Collective) (members : List Pid)
    (arrived : List Server.CommunicatorRequest) : System :=
  let result := Server.deliverAll cfg order s.server arrived
  { server := result.1
    processes := fun pid =>
      if pid ∈ members then
        (s.processes pid).bind fun p => (p.comms n).bind fun c => op.finish result.2 p c
      else
        s.processes pid }

/-- One collective operation. -/
inductive Step : System → System → Prop where
  | collective {s : System} {n : Nat} {op : Collective} {sc : Server.Communicator}
      {sent arrived : List Server.CommunicatorRequest}
      (hlive : s.server[n]? = some (some sc)) (hlegal : op.Legal sc.tables.members)
      (hsent : s.requests n op sc.tables.members = some sent)
      (harrived : arrived.Perm sent) :
      Step s (s.after cfg order n op sc.tables.members arrived)

/-- The start of a run: the application processes have built their world. -/
def start (server : Server.State) : System where
  server := server
  processes := fun pid =>
    match cfg.applicationSizes[getClusterRank pid]? with
    | none => none
    | some size =>
      if getProcessRank pid < size then
        initCommunicators cfg.applicationSizes (getClusterRank pid) (getProcessRank pid)
      else
        none

/-- The states of a run. -/
def Reachable (s : System) : Prop :=
  ∃ server, Server.initCommWorld cfg = some server ∧
    Relation.ReflTransGen (Step cfg order) (start cfg server) s

end System

/-- **How the tables fit together.** -/
structure System.Inv (cfg : Server.Config) (s : System) : Prop where
  length_server : 3 ≤ s.server.length
  reserved : s.server[1]? = some none ∧ s.server[2]? = some none
  world : s.server[0]? =
    some (some (Server.Communicator.fresh 0 (Server.tablesSpec (Server.worldMembers cfg))))
  communicator : ∀ (n : Nat) sc, s.server[n]? = some (some sc) →
    ∃ members, cfg.Valid members ∧
      sc = Server.Communicator.fresh n (Server.tablesSpec members)
  process : ∀ pid p, s.processes pid = some p → p.pid = pid ∧ cfg.IsApplication pid
  mirror : ∀ pid p, s.processes pid = some p → ∀ (n : Nat) sc,
    s.server[n]? = some (some sc) → pid ∈ sc.tables.members →
      ∃ c, p.comms n = some c ∧ Mirrors pid n sc.tables.members c
  known : ∀ pid p, s.processes pid = some p → ∀ h c, p.comms h = some c →
    h ≠ 1 → h ≠ 2 → ∃ sc, s.server[h]? = some (some sc) ∧ pid ∈ sc.tables.members

variable {cfg : Server.Config} {order : Server.HashOrder} {s : System}

/-- The row of requests for an operation. -/
def Collective.row (op : Collective) (n : Nat) (members : List Pid) :
    List Server.CommunicatorRequest :=
  members.mapIdx fun r pid => ⟨pid, n, r, op.operation pid⟩

theorem Collective.request_eq (op : Collective) (p : Process) (c : Communicator) :
    op.request p c = ⟨p.pid, c.handle, c.globalRank, op.operation p.pid⟩ := by
  cases op <;> rfl

/-- What `mapM` yields when it succeeds. -/
theorem map_eq_of_mapM_eq_some {α β : Type*} {f : α → Option β} {l : List α} {l' : List β}
    (h : l.mapM f = some l') : l.map f = l'.map some := by
  induction l generalizing l' with
  | nil =>
      cases h
      rfl
  | cons a l ih =>
      rw [List.mapM_cons] at h
      obtain ⟨b, hb, h⟩ := Option.bind_eq_some_iff.mp h
      obtain ⟨bs, hbs, h⟩ := Option.bind_eq_some_iff.mp h
      cases h
      rw [List.map_cons, List.map_cons, hb, ih hbs]

/-- The members of a communicator that a run operates on are running and mirror
it. -/
theorem System.Inv.members_running (hinv : s.Inv cfg) {n : Nat} {op : Collective}
    {members : List Pid} {sent : List Server.CommunicatorRequest}
    (hlive : s.server[n]? =
      some (some (Server.Communicator.fresh n (Server.tablesSpec members))))
    (hsent : s.requests n op members = some sent) :
    ∀ pid ∈ members, ∃ p c, s.processes pid = some p ∧ p.comms n = some c ∧
      p.pid = pid ∧ Mirrors pid n members c := by
  intro pid hpid
  have hmem := List.mem_map_of_mem (f := fun pid =>
    (s.processes pid).bind fun p => (p.comms n).map (op.request p)) hpid
  rw [map_eq_of_mapM_eq_some hsent] at hmem
  obtain ⟨m, _, hm⟩ := List.mem_map.mp hmem
  obtain ⟨p, hp, hm⟩ := Option.bind_eq_some_iff.mp hm.symm
  obtain ⟨c, hc, hmirrors⟩ := hinv.mirror pid p hp n _ hlive hpid
  exact ⟨p, c, hp, hc, (hinv.process pid p hp).1, hmirrors⟩

/-- The requests of the members form a row. -/
theorem System.Inv.sent_eq_row (hinv : s.Inv cfg) {n : Nat} {op : Collective}
    {members : List Pid} {sent : List Server.CommunicatorRequest}
    (hlive : s.server[n]? =
      some (some (Server.Communicator.fresh n (Server.tablesSpec members))))
    (hvalid : cfg.Valid members) (hsent : s.requests n op members = some sent) :
    sent = op.row n members := by
  have hrunning := hinv.members_running hlive hsent
  have hmap : sent.map some = (op.row n members).map some := by
    rw [← map_eq_of_mapM_eq_some hsent]
    apply List.ext_getElem?
    intro r
    cases hr : members[r]? with
    | none => simp [Collective.row, hr]
    | some pid =>
        obtain ⟨p, c, hp, hc, hself, hmirrors⟩ := hrunning pid (List.mem_of_getElem? hr)
        have hrank : c.globalRank = r := by
          have hlt := (List.getElem?_eq_some_iff.mp hmirrors.globalRank).1
          exact (List.getElem?_inj hlt hvalid.nodup).mp (hmirrors.globalRank.trans hr.symm)
        simp [Collective.row, hr, hp, hc, op.request_eq, hself, hmirrors.handle, hrank]
  exact (List.map_injective_iff.mpr (Option.some_injective _)) hmap

/-- A row of requests is what the server waits for. -/
theorem isRow_row (op : Collective) (n : Nat) (members : List Pid) :
    Server.IsRow n (op.row n members) := by
  constructor
  · intro m hm
    obtain ⟨r, hr, rfl⟩ := List.mem_mapIdx.mp hm
    rfl
  · intro r m hm
    rw [Collective.row, List.getElem?_mapIdx] at hm
    obtain ⟨pid, _, rfl⟩ := Option.map_eq_some_iff.mp hm
    rfl

/-- **The server's part of an operation**: one operation on the row of
requests, whatever the order of arrival. -/
theorem System.Inv.deliverAll_eq (hinv : s.Inv cfg) {n : Nat} {op : Collective}
    {members : List Pid} {sent arrived : List Server.CommunicatorRequest}
    (hlive : s.server[n]? =
      some (some (Server.Communicator.fresh n (Server.tablesSpec members))))
    (hvalid : cfg.Valid members) (hsent : s.requests n op members = some sent)
    (harrived : arrived.Perm sent) :
    Server.deliverAll cfg order s.server arrived =
      Server.processRequest cfg order s.server
        (Server.Communicator.full n (Server.tablesSpec members) (op.row n members))
        (op.row n members) := by
  rw [hinv.sent_eq_row hlive hvalid hsent] at harrived
  apply Server.deliverAll_eq hlive (isRow_row op n members) _ harrived
  simp [Collective.row, Server.tablesSpec]

/-- The reply to a process is the one addressed to it. -/
theorem replyTo_eq {replies : List Server.Reply}
    (hnodup : (replies.map Server.Reply.destination).Nodup) {m : Server.Reply}
    (hm : m ∈ replies) : replyTo replies m.destination = some m.body := by
  rw [replyTo]
  induction replies with
  | nil => cases hm
  | cons first replies ih =>
      rw [List.map_cons, List.nodup_cons] at hnodup
      rcases List.mem_cons.mp hm with rfl | hm
      · simp
      · have hne : first.destination ≠ m.destination := by
          intro heq
          exact hnodup.1 (heq ▸ List.mem_map_of_mem hm)
        rw [List.find?_cons_of_neg (by simpa using hne)]
        exact ih hnodup.2 hm

/-- What an operation does to server and members: it adds the communicators of
`rows`, and a member that goes on registers exactly those it is a member of. -/
structure Effect (cfg : Server.Config) (s : System) (n : Nat) (op : Collective)
    (members : List Pid) (result : Server.State × List Server.Reply)
    (rows : List (List Pid)) : Prop where
  server : result.1 = s.server ++ rows.mapIdx fun i pids =>
    some (Server.Communicator.fresh (s.server.length + i) (Server.tablesSpec pids))
  valid : ∀ pids ∈ rows, cfg.Valid pids ∧ ∀ pid ∈ pids, pid ∈ members
  finish : ∀ p c p', p.pid ∈ members → s.processes p.pid = some p →
    Mirrors p.pid n members c → op.finish result.2 p c = some p' →
      (∀ (i : Nat) pids, rows[i]? = some pids → p.pid ∈ pids →
        ∃ c', p.Registers p' (s.server.length + i) c' ∧
          Mirrors p.pid (s.server.length + i) pids c') ∧
      ((∀ pids ∈ rows, p.pid ∉ pids) → p' = p)

/-- The operation that the server performs on a row: that of its first request,
whose opcode all share. -/
theorem processRequest_row {st : Server.State} {c : Server.Communicator} {n : Nat}
    (op : Collective) (first : Pid) (members : List Pid) :
    Server.processRequest cfg order st c (op.row n (first :: members)) =
      match op.operation first with
      | .split _ _ => Server.processSplit cfg order st c
          ((op.row n (first :: members)).filterMap (·.toSplit))
      | .group _ => Server.processGroup cfg order st c
          ((op.row n (first :: members)).filterMap (·.toGroup))
      | .dup => Server.processDup cfg st c
      | .free => Server.processFree st c
      | .finalize => Server.processFinalize cfg st c := by
  have hopcode : ∀ pid, (op.operation pid).opcode = (op.operation first).opcode := by
    intro pid
    cases op <;> rfl
  have hall : ((members.mapIdx fun r pid => (⟨pid, n, r + 1, op.operation pid⟩ :
      Server.CommunicatorRequest)).all fun m =>
        m.operation.opcode == (op.operation first).opcode) = true := by
    rw [List.all_eq_true]
    intro m hm
    obtain ⟨r, hr, rfl⟩ := List.mem_mapIdx.mp hm
    exact beq_iff_eq.mpr (hopcode _)
  rw [Collective.row, List.mapIdx_cons, Server.processRequest]
  refine (if_pos hall).trans ?_
  cases op with
  | split color key => rfl
  | create group => rfl
  | dup => rfl

section Split

variable {color key : Pid → Int} {members : List Pid}

/-- The color that the server sees. -/
def sentColor (color key : Pid → Int) (pid : Pid) : Int :=
  (splitColorKey (color pid) (key pid)).1

/-- The requests of a split, as the server reads them. -/
def splitRow (color key : Pid → Int) (members : List Pid) : List Server.SplitRequest :=
  members.mapIdx fun r pid =>
    ⟨pid, r, sentColor color key pid, (splitColorKey (color pid) (key pid)).2⟩

theorem filterMap_toSplit_row (n : Nat) :
    ((Collective.split color key).row n members).filterMap (·.toSplit) =
      splitRow color key members := by
  have hsome : ∀ l : List Server.CommunicatorRequest, ∀ l' : List Server.SplitRequest,
      l.map (·.toSplit) = l'.map some → l.filterMap (·.toSplit) = l' := by
    intro l l' h
    have hmap := congrArg (List.filterMap id) h
    simpa [List.filterMap_map, Function.comp_def] using hmap
  apply hsome
  apply List.ext_getElem?
  intro r
  cases hr : members[r]? with
  | none => simp [Collective.row, splitRow, hr]
  | some pid =>
      simp [Collective.row, splitRow, hr, Collective.operation,
        Server.CommunicatorRequest.toSplit, sentColor]

/-- The server's part of a split. -/
theorem processRequest_split {st : Server.State} {n : Nat} :
    Server.processRequest cfg order st
        (Server.Communicator.full n (Server.tablesSpec members)
          ((Collective.split color key).row n members))
        ((Collective.split color key).row n members) =
      Server.processSplit cfg order st
        (Server.Communicator.full n (Server.tablesSpec members)
          ((Collective.split color key).row n members))
        (splitRow color key members) := by
  have hrow := @filterMap_toSplit_row color key members n
  cases members with
  | nil =>
      have hkeys : order.keys [] = [] := List.perm_nil.mp (order.perm_keys [])
      simp [Collective.row, Server.processRequest, Server.processSplit, splitRow, hkeys,
        Server.splitColors]
  | cons first members =>
      rw [processRequest_row, hrow]
      rfl

/-- The members that ask for one color. -/
theorem mem_colorPids {k : Int} {pid : Pid} :
    pid ∈ Server.colorPids members (splitRow color key members) k ↔
      pid ∈ members ∧ sentColor color key pid = k := by
  have hsources : ∀ m ∈ splitRow color key members, members[m.rank]? = some m.source := by
    intro m hm
    obtain ⟨r, hr, rfl⟩ := List.mem_mapIdx.mp hm
    exact List.getElem?_eq_getElem hr
  rw [(Server.colorPids_perm hsources).mem_iff, List.mem_map]
  constructor
  · rintro ⟨m, hm, rfl⟩
    obtain ⟨hm, hcolor⟩ := List.mem_filter.mp hm
    obtain ⟨r, hr, rfl⟩ := List.mem_mapIdx.mp hm
    exact ⟨List.getElem_mem hr, of_decide_eq_true hcolor⟩
  · rintro ⟨hpid, rfl⟩
    obtain ⟨r, hr, rfl⟩ := List.mem_iff_getElem.mp hpid
    exact ⟨_, List.mem_filter.mpr ⟨List.mem_mapIdx.mpr ⟨r, hr, rfl⟩, decide_eq_true rfl⟩, rfl⟩

/-- What is known of the requests of a split. -/
theorem splitRow_sources :
    ∀ m ∈ splitRow color key members, members[m.rank]? = some m.source := by
  intro m hm
  obtain ⟨r, hr, rfl⟩ := List.mem_mapIdx.mp hm
  exact List.getElem?_eq_getElem hr

theorem map_source_splitRow : (splitRow color key members).map (·.source) = members := by
  apply List.ext_getElem?
  intro r
  cases hr : members[r]? <;> simp [splitRow, hr]

/-- The colors of a split, in the order in which the server handles them. -/
def splitColorOrder (order : Server.HashOrder) (color key : Pid → Int)
    (members : List Pid) : List Int :=
  order.keys ((splitRow color key members).map (·.color)).eraseDups

theorem nodup_splitColorOrder : (splitColorOrder order color key members).Nodup :=
  (order.perm_keys _).nodup_iff.mpr (nodup_eraseDups _)

theorem mem_splitColorOrder {pid : Pid} (hpid : pid ∈ members) :
    sentColor color key pid ∈ splitColorOrder order color key members := by
  rw [splitColorOrder, (order.perm_keys _).mem_iff, List.mem_eraseDups, List.mem_map]
  obtain ⟨r, hr, rfl⟩ := List.mem_iff_getElem.mp hpid
  exact ⟨_, List.mem_mapIdx.mpr ⟨r, hr, rfl⟩, rfl⟩

/-- The result of a split. -/
def splitResult (order : Server.HashOrder) (st : Server.State) (color key : Pid → Int)
    (members : List Pid) : Server.State × List Server.Reply :=
  (st ++ (Server.newColors (splitColorOrder order color key members)).map fun k =>
      some (Server.colorCommunicator members (splitRow color key members) st
        (splitColorOrder order color key members) k),
    (splitColorOrder order color key members).flatMap
      (Server.colorReplies members (splitRow color key members) st
        (splitColorOrder order color key members)))

variable {st : Server.State}

/-- The server's part of a split, and to whom it replies. -/
theorem processSplit_row {c : Server.Communicator} (hc : c.tables.members = members)
    (hvalid : cfg.Valid members) :
    Server.processSplit cfg order st c (splitRow color key members) =
        splitResult order st color key members ∧
      ((splitResult order st color key members).2.map Server.Reply.destination).Nodup := by
  subst hc
  have hresult : Server.processSplit cfg order st c (splitRow color key c.tables.members) =
      splitResult order st color key c.tables.members := by
    apply Server.processSplit_eq
    · exact fun m hm => (List.getElem?_eq_some_iff.mp (splitRow_sources m hm)).1
    · exact hvalid.application
    · exact fun m hm => hvalid.application _ (List.mem_of_getElem? (splitRow_sources m hm))
  refine ⟨hresult, ?_⟩
  rw [← hresult, (Server.processSplit_destinations hvalid.application
    splitRow_sources).nodup_iff, map_source_splitRow]
  exact hvalid.nodup

/-- The reply to a member with a color: its place in the new communicator, and
its rank in its cluster as the key. -/
theorem replyTo_splitResult (hvalid : cfg.Valid members) {pid : Pid}
    (hpid : pid ∈ members) (hcolor : 0 ≤ sentColor color key pid) {pids : List Pid}
    (hpids : pids = Server.colorPids members (splitRow color key members)
      (sentColor color key pid)) :
    ∃ j : Nat, pids[j]? = some pid ∧
      replyTo (splitResult order st color key members).2 pid =
        some (.split
          ((Server.colorCommunicator members (splitRow color key members) st
            (splitColorOrder order color key members) (sentColor color key pid)).infoFor j)
          (sentColor color key pid) ((clusterMembers pid pids).idxOf pid)) := by
  have hnodup : pids.Nodup := by
    rw [hpids]
    exact (Server.valid_colorPids hvalid splitRow_sources
      (map_source_splitRow.symm ▸ hvalid.nodup) _).nodup
  obtain ⟨j, hj⟩ := List.getElem?_of_mem
    (hpids ▸ mem_colorPids.mpr ⟨hpid, rfl⟩ : pid ∈ pids)
  refine ⟨j, hj, ?_⟩
  have hlocal := localRanks_eq_idxOf hnodup hj
  have hdest := (@processSplit_row cfg order color key members st
    (Server.Communicator.fresh 0 (Server.tablesSpec members)) rfl hvalid).2
  have hmem : (⟨pid, .split
      ((Server.colorCommunicator members (splitRow color key members) st
        (splitColorOrder order color key members) (sentColor color key pid)).infoFor j)
      (sentColor color key pid) ((clusterMembers pid pids).idxOf pid)⟩ : Server.Reply) ∈
      (splitResult order st color key members).2 := by
    apply List.mem_flatMap.mpr
    refine ⟨_, mem_splitColorOrder hpid, ?_⟩
    rw [Server.colorReplies, if_pos hcolor, Server.splitReplies]
    obtain ⟨hlt, hget⟩ := List.getElem?_eq_some_iff.mp hj
    subst hpids
    refine List.mem_mapIdx.mpr ⟨j, hlt, ?_⟩
    have hkey : (Server.colorCommunicator members (splitRow color key members) st
        (splitColorOrder order color key members)
        (sentColor color key pid)).tables.localRanks.getD j 0 =
          (clusterMembers pid (Server.colorPids members (splitRow color key members)
            (sentColor color key pid))).idxOf pid := by
      rw [List.getD_eq_getElem?_getD]
      exact congrArg (·.getD 0) hlocal
    rw [hkey]
    exact congrArg (fun q => (⟨q, _⟩ : Server.Reply)) hget
  exact replyTo_eq hdest hmem

/-- The reply to a member without a color. -/
theorem replyTo_splitResult_undefined (hvalid : cfg.Valid members) {pid : Pid}
    (hpid : pid ∈ members) (hcolor : ¬ 0 ≤ sentColor color key pid) :
    ∃ info, replyTo (splitResult order st color key members).2 pid =
      some (.split info (-1) 0) := by
  have hdest := (@processSplit_row cfg order color key members st
    (Server.Communicator.fresh 0 (Server.tablesSpec members)) rfl hvalid).2
  have hmem : Server.simplifiedSplitReply pid ∈
      (splitResult order st color key members).2 := by
    apply List.mem_flatMap.mpr
    refine ⟨_, mem_splitColorOrder hpid, ?_⟩
    rw [Server.colorReplies, if_neg hcolor, List.mem_map]
    obtain ⟨r, hr, rfl⟩ := List.mem_iff_getElem.mp hpid
    exact ⟨_, List.mem_filter.mpr
      ⟨List.mem_mapIdx.mpr ⟨r, hr, rfl⟩, decide_eq_true rfl⟩, rfl⟩
  exact ⟨_, replyTo_eq hdest hmem⟩

/-- What a member passes to the local split. -/
theorem localSplitArgs_splitResult (hvalid : cfg.Valid members) {pid : Pid}
    (hpid : pid ∈ members) :
    localSplitArgs (splitResult order st color key members).2 pid =
      if 0 ≤ sentColor color key pid then
        (sentColor color key pid,
          ((clusterMembers pid (Server.colorPids members (splitRow color key members)
            (sentColor color key pid))).idxOf pid : Int))
      else
        (mpiUndefined, 0) := by
  rw [localSplitArgs]
  by_cases hcolor : 0 ≤ sentColor color key pid
  · obtain ⟨j, _, hreply⟩ := @replyTo_splitResult cfg order color key members st hvalid
      pid hpid hcolor _ rfl
    rw [hreply, if_pos hcolor]
    simp only [localColorKey, if_neg (Int.not_lt.mpr hcolor)]
  · obtain ⟨info, hreply⟩ := @replyTo_splitResult_undefined cfg order color key members st
      hvalid pid hpid hcolor
    rw [hreply, if_neg hcolor]
    rfl

/-- **The effect of a split.** -/
theorem effect_split {n : Nat} (hvalid : cfg.Valid members) :
    Effect cfg s n (.split color key) members (splitResult order s.server color key members)
      ((Server.newColors (splitColorOrder order color key members)).map
        (Server.colorPids members (splitRow color key members))) := by
  have hrow : ∀ k, cfg.Valid (Server.colorPids members (splitRow color key members) k) :=
    Server.valid_colorPids hvalid splitRow_sources (map_source_splitRow.symm ▸ hvalid.nodup)
  refine ⟨congrArg _ (Server.map_colorCommunicator _ nodup_splitColorOrder), ?_, ?_⟩
  · intro pids hpids
    obtain ⟨k, _, rfl⟩ := List.mem_map.mp hpids
    exact ⟨hrow k, fun pid hpid => (mem_colorPids.mp hpid).1⟩
  · intro p c p' hmember hp hmirrors hfinish
    have hargs : ∀ q ∈ members, _ := fun q hq =>
      @localSplitArgs_splitResult cfg order color key members s.server hvalid q hq
    by_cases hcolor : 0 ≤ sentColor color key p.pid
    · -- the process belongs to the communicator of its color, and to no other
      obtain ⟨j, hj, hreply⟩ := @replyTo_splitResult cfg order color key members s.server
        hvalid p.pid hmember hcolor _ rfl
      have hcomm : pmpiCommSplit c.comm
          (localSplitArgs (splitResult order s.server color key members).2) p.pid =
          some (clusterMembers p.pid (Server.colorPids members (splitRow color key members)
            (sentColor color key p.pid))) := by
        have hown : localSplitArgs (splitResult order s.server color key members).2 p.pid =
            _ := (hargs p.pid hmember).trans (if_pos hcolor)
        rw [hmirrors.comm]
        apply pmpiCommSplit_eq hvalid.nodup (hrow _).nodup
          (fun q hq => (mem_colorPids.mp hq).1)
        · intro h
          have hnegative : sentColor color key p.pid = -32766 := by rwa [hown] at h
          omega
        · intro q hq
          rw [hargs q hq, hown, mem_colorPids]
          by_cases hq' : 0 ≤ sentColor color key q
          · simp [hq', hq]
          · have hne : sentColor color key q ≠ sentColor color key p.pid := by omega
            have hundef : mpiUndefined ≠ sentColor color key p.pid := by
              intro h
              have hnegative : sentColor color key p.pid = -32766 := h.symm
              omega
            simp [hq', hne, hundef]
        · intro q hq
          obtain ⟨hq, hcluster⟩ := List.mem_filter.mp hq
          obtain ⟨hq, hsame⟩ := mem_colorPids.mp hq
          have hmembers : clusterMembers q = clusterMembers p.pid := by
            funext l
            rw [clusterMembers, clusterMembers, of_decide_eq_true hcluster]
          rw [hargs q hq, hsame, if_pos hcolor, hmembers]
      simp only [Collective.finish, hreply, Process.finishSplit, hcomm] at hfinish
      obtain ⟨c', hregisters, hmirrors'⟩ := createCommunicator_mirrors hj hfinish
      constructor
      · intro i pids hi hpid
        rw [List.getElem?_map] at hi
        obtain ⟨k, hk, rfl⟩ := Option.map_eq_some_iff.mp hi
        obtain ⟨_, rfl⟩ := mem_colorPids.mp hpid
        obtain ⟨hlt, hk⟩ := List.getElem?_eq_some_iff.mp hk
        have hidx : (Server.newColors (splitColorOrder order color key members)).idxOf
            (sentColor color key p.pid) = i := by
          rw [← hk]
          exact (nodup_splitColorOrder.filter _).idxOf_getElem i hlt
        rw [hidx] at hregisters hmirrors'
        exact ⟨c', hregisters, hmirrors'⟩
      · intro hnone
        refine absurd (mem_colorPids.mpr ⟨hmember, rfl⟩) (hnone _ (List.mem_map.mpr
          ⟨sentColor color key p.pid, List.mem_filter.mpr
            ⟨mem_splitColorOrder hmember, decide_eq_true hcolor⟩, rfl⟩))
    · obtain ⟨info, hreply⟩ := @replyTo_splitResult_undefined cfg order color key members
        s.server hvalid p.pid hmember hcolor
      have hcomm : pmpiCommSplit c.comm
          (localSplitArgs (splitResult order s.server color key members).2) p.pid = none := by
        rw [pmpiCommSplit, hargs p.pid hmember, if_neg hcolor]
        rfl
      simp only [Collective.finish, hreply, Process.finishSplit, hcomm] at hfinish
      cases hfinish
      constructor
      · intro i pids hi hpid
        rw [List.getElem?_map] at hi
        obtain ⟨k, hk, rfl⟩ := Option.map_eq_some_iff.mp hi
        obtain ⟨_, rfl⟩ := mem_colorPids.mp hpid
        have hnew := (List.mem_filter.mp (List.mem_of_getElem? hk)).2
        exact absurd (of_decide_eq_true hnew) hcolor
      · intro _
        rfl

end Split

section Create

variable {group members : List Pid}

theorem filterMap_toGroup_row (n : Nat) :
    ((Collective.create group).row n members).filterMap (·.toGroup) =
      members.map fun _ => group := by
  induction members using List.reverseRecOn with
  | nil => rfl
  | append_singleton members pid ih =>
      rw [Collective.row] at ih ⊢
      rw [List.mapIdx_concat, List.filterMap_append, ih, List.map_append]
      rfl

/-- The result of a create. -/
def createResult (order : Server.HashOrder) (st : Server.State)
    (members group : List Pid) : Server.State × List Server.Reply :=
  let com := Server.Communicator.fresh st.length (Server.tablesSpec group)
  (st ++ [some com],
    (group.mapIdx fun j pid => ⟨pid, .group (com.infoFor j) .active⟩) ++
      (order.elements (members.eraseDups.filter fun pid => pid ∉ group)).map
        fun pid => Server.outsiderGroupReply pid
          (Server.getClusterRank pid ∈ group.map Server.getClusterRank))

/-- The server's part of a create, and to whom it replies. -/
theorem processRequest_create {st : Server.State} {c : Server.Communicator} {n : Nat}
    {first : Pid} (hc : c.tables.members = first :: members)
    (hvalid : cfg.Valid (first :: members)) (hgroup : group.Nodup)
    (hsub : ∀ pid ∈ group, pid ∈ first :: members) :
    Server.processRequest cfg order st c ((Collective.create group).row n (first :: members)) =
        createResult order st (first :: members) group ∧
      ((createResult order st (first :: members) group).2.map
        Server.Reply.destination).Nodup := by
  have hmembers : ∀ pid ∈ c.tables.members, cfg.IsApplication pid := by
    rw [hc]
    exact hvalid.application
  have hknown : ∀ pid ∈ group, cfg.IsApplication pid :=
    fun pid hpid => hvalid.application pid (hsub pid hpid)
  have hothers : ∀ other ∈ members.map fun _ => group, other = group := by
    intro other hother
    obtain ⟨_, _, rfl⟩ := List.mem_map.mp hother
    rfl
  have heq := @Server.processGroup_eq cfg order st c _ _ hothers hknown hmembers
  have hdest := @Server.processGroup_destinations cfg order st c _ _ hothers hknown hmembers
  rw [heq, hc] at hdest
  constructor
  · rw [processRequest_row, filterMap_toGroup_row, List.map_cons]
    simp only [Collective.operation]
    rw [heq, hc]
    rfl
  · apply hdest.nodup_iff.mpr
    refine List.nodup_append.mpr ⟨hgroup, (nodup_eraseDups _).filter _, ?_⟩
    intro pid hpid other hother heq
    subst heq
    exact absurd hpid (of_decide_eq_true (List.mem_filter.mp hother).2)

/-- A process outside the group keeps what it has. -/
theorem finishCreate_outsider {p : Process} {c : Communicator}
    (hlocal : p.localCommCreate c group = some none) (info : Server.CommInfo)
    (type : Server.GroupType) : p.finishCreate c group info type = some p := by
  rw [Process.finishCreate]
  split
  · rfl
  · rw [hlocal]
    rfl

/-- **The effect of a create.** -/
theorem effect_create (hinv : s.Inv cfg) {n : Nat} {first : Pid}
    (hvalid : cfg.Valid (first :: members)) (hgroup : group.Nodup)
    (hsub : ∀ pid ∈ group, pid ∈ first :: members) :
    Effect cfg s n (.create group) (first :: members)
      (createResult order s.server (first :: members) group) [group] := by
  have hdest := (@processRequest_create cfg order group members s.server
    (Server.Communicator.fresh n (Server.tablesSpec (first :: members))) n first rfl hvalid
    hgroup hsub).2
  have hknown : ∀ pid ∈ group, cfg.IsApplication pid :=
    fun pid hpid => hvalid.application pid (hsub pid hpid)
  refine ⟨by simp [createResult], ?_, ?_⟩
  · intro pids hpids
    rw [List.mem_singleton] at hpids
    subst hpids
    exact ⟨⟨hgroup, hknown⟩, hsub⟩
  · intro p c p' hmember hp hmirrors hfinish
    obtain ⟨world, hworld, hworldMirrors⟩ := hinv.mirror _ p hp 0 _ hinv.world
      (Server.mem_worldMembers.mpr (hvalid.application _ hmember))
    have hlocal := localCommCreate_eq hworld hworldMirrors hmirrors.comm hknown hsub
    by_cases hself : p.pid ∈ group
    · obtain ⟨j, hj⟩ := List.getElem?_of_mem hself
      have hreply := replyTo_eq hdest (List.mem_append_left _ (List.mem_mapIdx.mpr
        ⟨j, (List.getElem?_eq_some_iff.mp hj).1, rfl⟩))
      simp only [(List.getElem?_eq_some_iff.mp hj).2] at hreply
      simp only [Collective.finish, hreply, Process.finishCreate, reduceCtorEq, if_false,
        hlocal, if_pos hself, Option.bind_some] at hfinish
      obtain ⟨c', hregisters, hmirrors'⟩ := createCommunicator_mirrors hj hfinish
      constructor
      · intro i pids hi _
        obtain ⟨rfl, rfl⟩ : i = 0 ∧ pids = group := by
          cases i with
          | zero => exact ⟨rfl, (Option.some.inj hi).symm⟩
          | succ i => cases hi
        exact ⟨c', hregisters, hmirrors'⟩
      · intro hnone
        exact absurd hself (hnone group List.mem_cons_self)
    · have hstays : p.pid ∈ order.elements
          ((first :: members).eraseDups.filter fun pid => pid ∉ group) := by
        rw [(order.perm_elements _).mem_iff]
        exact List.mem_filter.mpr ⟨List.mem_eraseDups.mpr hmember, decide_eq_true hself⟩
      have hreply := replyTo_eq hdest (List.mem_append_right _ (List.mem_map_of_mem hstays))
      simp only [Server.outsiderGroupReply] at hreply
      have hsame : p' = p := by
        rw [if_neg hself] at hlocal
        simp only [Collective.finish, hreply, finishCreate_outsider hlocal] at hfinish
        exact (Option.some.inj hfinish).symm
      constructor
      · intro i pids hi hpid
        have hgroup : pids = group := by
          cases i with
          | zero => exact (Option.some.inj hi).symm
          | succ i => cases hi
        exact absurd (hgroup ▸ hpid) hself
      · intro _
        exact hsame

end Create

/-- **The effect of a dup.** -/
theorem effect_dup {n : Nat} {members : List Pid} (hvalid : cfg.Valid members)
    {c : Server.Communicator} (hc : c.tables.members = members) :
    Effect cfg s n .dup members (Server.processDup cfg s.server c) [members] := by
  have hmembers : ∀ pid ∈ c.tables.members, cfg.IsApplication pid := by
    rw [hc]
    exact hvalid.application
  have heq := @Server.processDup_eq cfg s.server c hmembers
  rw [hc] at heq
  rw [heq]
  have hdest : ((members.map fun pid =>
      (⟨pid, .dup s.server.length⟩ : Server.Reply)).map Server.Reply.destination).Nodup := by
    rw [List.map_map]
    exact (List.map_id members).symm ▸ hvalid.nodup
  refine ⟨by simp, ?_, ?_⟩
  · intro pids hpids
    rw [List.mem_singleton] at hpids
    subst hpids
    exact ⟨hvalid, fun _ hpid => hpid⟩
  · intro p c p' hmember hp hmirrors hfinish
    have hreply := replyTo_eq hdest (List.mem_map_of_mem hmember)
    simp only [Collective.finish, hreply] at hfinish
    obtain ⟨c', hregisters, hmirrors'⟩ := finishDup_mirrors hmirrors hfinish
    constructor
    · intro i pids hi _
      obtain ⟨rfl, rfl⟩ : i = 0 ∧ pids = members := by
        cases i with
        | zero => exact ⟨rfl, (Option.some.inj hi).symm⟩
        | succ i => cases hi
      exact ⟨c', hregisters, hmirrors'⟩
    · intro hnone
      exact absurd hmember (hnone members List.mem_cons_self)

namespace System

/-- **The effect of an operation.** -/
theorem Inv.effect (hinv : s.Inv cfg) {n : Nat} {op : Collective} {members : List Pid}
    {sent arrived : List Server.CommunicatorRequest}
    (hlive : s.server[n]? =
      some (some (Server.Communicator.fresh n (Server.tablesSpec members))))
    (hvalid : cfg.Valid members) (hlegal : op.Legal members)
    (hsent : s.requests n op members = some sent) (harrived : arrived.Perm sent) :
    ∃ rows, Effect cfg s n op members (Server.deliverAll cfg order s.server arrived) rows := by
  rw [hinv.deliverAll_eq hlive hvalid hsent harrived]
  cases members with
  | nil =>
      refine ⟨[], by simp [Collective.row, Server.processRequest], by simp, ?_⟩
      intro p c p' hmember
      cases hmember
  | cons first members =>
      cases op with
      | split color key =>
          have hsplit := (@processSplit_row cfg order color key (first :: members) s.server
            (Server.Communicator.full n (Server.tablesSpec (first :: members))
              ((Collective.split color key).row n (first :: members))) rfl hvalid).1
          rw [processRequest_split, hsplit]
          exact ⟨_, effect_split hvalid⟩
      | create group =>
          rw [(processRequest_create rfl hvalid hlegal.1 hlegal.2).1]
          exact ⟨_, effect_create hinv hvalid hlegal.1 hlegal.2⟩
      | dup =>
          rw [processRequest_row]
          exact ⟨_, effect_dup hvalid rfl⟩

/-- The communicators of the server after an operation. -/
theorem Effect_live {n n' : Nat} {op : Collective} {members : List Pid}
    {result : Server.State × List Server.Reply} {rows : List (List Pid)}
    (h : Effect cfg s n op members result rows) {sc : Server.Communicator} :
    result.1[n']? = some (some sc) ↔
      s.server[n']? = some (some sc) ∨
        ∃ i pids, n' = s.server.length + i ∧ rows[i]? = some pids ∧
          sc = Server.Communicator.fresh n' (Server.tablesSpec pids) := by
  rw [h.server]
  by_cases hn : n' < s.server.length
  · rw [List.getElem?_append_left hn]
    constructor
    · exact Or.inl
    · rintro (hlive | ⟨i, _, rfl, _⟩)
      · exact hlive
      · omega
  · have hge : s.server.length ≤ n' := Nat.le_of_not_lt hn
    rw [List.getElem?_append_right hge, List.getElem?_mapIdx, List.getElem?_eq_none hge]
    constructor
    · intro hnew
      obtain ⟨pids, hpids, heq⟩ := Option.map_eq_some_iff.mp hnew
      rw [Nat.add_sub_of_le hge] at heq
      exact Or.inr ⟨_, pids, (Nat.add_sub_of_le hge).symm, hpids, (Option.some.inj heq).symm⟩
    · rintro (hlive | ⟨i, pids, rfl, hpids, rfl⟩)
      · cases hlive
      · rw [Nat.add_sub_cancel_left, hpids]
        rfl

/-- Every operation keeps the invariant. -/
theorem inv_after (hinv : s.Inv cfg) {n : Nat} {op : Collective} {members : List Pid}
    {arrived : List Server.CommunicatorRequest} {rows : List (List Pid)}
    (hlive : s.server[n]? =
      some (some (Server.Communicator.fresh n (Server.tablesSpec members))))
    (heffect : Effect cfg s n op members (Server.deliverAll cfg order s.server arrived) rows) :
    (s.after cfg order n op members arrived).Inv cfg := by
  have hold : ∀ h < s.server.length,
      (s.after cfg order n op members arrived).server[h]? = s.server[h]? := by
    intro h hh
    rw [after, heffect.server, List.getElem?_append_left hh]
  have hlive' : ∀ (n' : Nat) sc,
      (s.after cfg order n op members arrived).server[n']? = some (some sc) → _ :=
    fun n' sc h => (Effect_live heffect).mp h
  -- a running process is one that was running, and registered what it had to
  have hprocess : ∀ pid p', (s.after cfg order n op members arrived).processes pid = some p' →
      ∃ p, s.processes pid = some p ∧ p.pid = pid ∧
        ((pid ∉ members ∧ p' = p) ∨ (pid ∈ members ∧
          ∃ c, op.finish (Server.deliverAll cfg order s.server arrived).2 p c = some p' ∧
            Mirrors pid n members c)) := by
    intro pid p' hp'
    by_cases hmember : pid ∈ members
    · simp only [after, if_pos hmember] at hp'
      obtain ⟨p, hp, hp'⟩ := Option.bind_eq_some_iff.mp hp'
      obtain ⟨c, hc, hp'⟩ := Option.bind_eq_some_iff.mp hp'
      have hmirror := hinv.mirror pid p hp n _ hlive hmember
      obtain ⟨c', hc', hmirrors⟩ := hmirror
      rw [hc] at hc'
      cases hc'
      exact ⟨p, hp, (hinv.process pid p hp).1, Or.inr ⟨hmember, c, hp', hmirrors⟩⟩
    · simp only [after, if_neg hmember] at hp'
      exact ⟨p', hp', (hinv.process pid p' hp').1, Or.inl ⟨hmember, rfl⟩⟩
  have hfinish : ∀ pid p', (s.after cfg order n op members arrived).processes pid = some p' →
      ∃ p, s.processes pid = some p ∧ p.pid = pid ∧
        (∀ (i : Nat) pids, rows[i]? = some pids → pid ∈ pids →
          ∃ c', p.Registers p' (s.server.length + i) c' ∧
            Mirrors pid (s.server.length + i) pids c') ∧
        ((∀ pids ∈ rows, pid ∉ pids) → p' = p) := by
    intro pid p' hp'
    obtain ⟨p, hp, rfl, hcases⟩ := hprocess pid p' hp'
    refine ⟨p, hp, rfl, ?_⟩
    rcases hcases with ⟨hmember, rfl⟩ | ⟨hmember, c, hfinish, hmirrors⟩
    · constructor
      · intro i pids hi hpid
        exact absurd ((heffect.valid pids (List.mem_of_getElem? hi)).2 _ hpid) hmember
      · intro _
        rfl
    · exact heffect.finish p c p' hmember hp hmirrors hfinish
  have hthree := hinv.length_server
  refine ⟨?_, ?_, ?_, ?_, ?_, ?_, ?_⟩
  · rw [after, heffect.server, List.length_append]
    omega
  · rw [hold 1 (by omega), hold 2 (by omega)]
    exact hinv.reserved
  · rw [hold 0 (by omega)]
    exact hinv.world
  · intro n' sc hsc
    rcases hlive' n' sc hsc with hsc | ⟨i, pids, _, hi, rfl⟩
    · exact hinv.communicator n' sc hsc
    · exact ⟨pids, (heffect.valid pids (List.mem_of_getElem? hi)).1, rfl⟩
  · intro pid p' hp'
    obtain ⟨p, hp, rfl, hregisters, hsame⟩ := hfinish pid p' hp'
    refine ⟨?_, (hinv.process _ p hp).2⟩
    by_cases hrow : ∃ pids ∈ rows, p.pid ∈ pids
    · obtain ⟨pids, hpids, hpid⟩ := hrow
      obtain ⟨i, hi⟩ := List.getElem?_of_mem hpids
      obtain ⟨_, hreg, _⟩ := hregisters i pids hi hpid
      exact hreg.pid
    · rw [hsame fun pids hpids hpid => hrow ⟨pids, hpids, hpid⟩]
  · intro pid p' hp' n' sc hsc hpid
    obtain ⟨p, hp, rfl, hregisters, hsame⟩ := hfinish pid p' hp'
    rcases hlive' n' sc hsc with hsc | ⟨i, pids, rfl, hi, rfl⟩
    · obtain ⟨c, hc, hmirrors⟩ := hinv.mirror _ p hp n' sc hsc hpid
      refine ⟨c, ?_, hmirrors⟩
      by_cases hrow : ∃ pids ∈ rows, p.pid ∈ pids
      · obtain ⟨pids, hpids, hmem⟩ := hrow
        obtain ⟨i, hi⟩ := List.getElem?_of_mem hpids
        obtain ⟨_, hreg, _⟩ := hregisters i pids hi hmem
        have hlt := (List.getElem?_eq_some_iff.mp hsc).1
        rw [hreg.comms, if_neg (by omega)]
        exact hc
      · rw [hsame fun pids hpids hpid => hrow ⟨pids, hpids, hpid⟩]
        exact hc
    · obtain ⟨c', hreg, hmirrors⟩ := hregisters i pids hi hpid
      refine ⟨c', ?_, hmirrors⟩
      rw [hreg.comms, if_pos rfl]
  · intro pid p' hp' h c hc h1 h2
    obtain ⟨p, hp, rfl, hregisters, hsame⟩ := hfinish pid p' hp'
    have hknown : p.comms h = some c →
        ∃ sc, (s.after cfg order n op members arrived).server[h]? = some (some sc) ∧
          p.pid ∈ sc.tables.members := by
      intro hc
      obtain ⟨sc, hsc, hmem⟩ := hinv.known _ p hp h c hc h1 h2
      refine ⟨sc, ?_, hmem⟩
      rw [hold h (List.getElem?_eq_some_iff.mp hsc).1]
      exact hsc
    by_cases hrow : ∃ pids ∈ rows, p.pid ∈ pids
    · obtain ⟨pids, hpids, hmem⟩ := hrow
      obtain ⟨i, hi⟩ := List.getElem?_of_mem hpids
      obtain ⟨c', hreg, _⟩ := hregisters i pids hi hmem
      rw [hreg.comms] at hc
      by_cases hnew : h = s.server.length + i
      · exact ⟨_, (Effect_live heffect).mpr (Or.inr ⟨i, pids, hnew, hi, rfl⟩), hmem⟩
      · rw [if_neg hnew] at hc
        exact hknown hc
    · rw [hsame fun pids hpids hpid => hrow ⟨pids, hpids, hpid⟩] at hc
      exact hknown hc

/-- Every step keeps the invariant. -/
theorem inv_step {s' : System} (hinv : s.Inv cfg) (hstep : Step cfg order s s') :
    s'.Inv cfg := by
  cases hstep with
  | @collective n op sc sent arrived hlive hlegal hsent harrived =>
      obtain ⟨members, hvalid, rfl⟩ := hinv.communicator n sc hlive
      obtain ⟨rows, heffect⟩ := hinv.effect hlive hvalid hlegal hsent harrived
      exact inv_after hinv hlive heffect

/-- The processes at the start of a run. -/
theorem start_processes {server : Server.State} {pid : Pid} {p : Process}
    (hp : (start cfg server).processes pid = some p) :
    cfg.IsApplication pid ∧
      initCommunicators cfg.applicationSizes (getClusterRank pid) (getProcessRank pid) = some p := by
  simp only [start] at hp
  split at hp
  · cases hp
  · rename_i size hsize
    split at hp
    · rename_i hlt
      exact ⟨⟨size, hsize, hlt⟩, hp⟩
    · cases hp

/-- The invariant at the start. -/
theorem inv_start : (start cfg
    [some (Server.Communicator.fresh 0 (Server.tablesSpec (Server.worldMembers cfg))), none,
      none]).Inv cfg := by
  have hserver : ∀ (n : Nat) sc, (start cfg
      [some (Server.Communicator.fresh 0 (Server.tablesSpec (Server.worldMembers cfg))),
        none, none]).server[n]? = some (some sc) →
      n = 0 ∧ sc = Server.Communicator.fresh 0 (Server.tablesSpec (Server.worldMembers cfg)) := by
    intro n sc hsc
    match n with
    | 0 =>
        cases hsc
        exact ⟨rfl, rfl⟩
    | 1 => cases hsc
    | 2 => cases hsc
    | n + 3 => cases hsc
  refine ⟨Nat.le_refl 3, ⟨rfl, rfl⟩, rfl, ?_, ?_, ?_, ?_⟩
  · intro n sc hsc
    obtain ⟨rfl, rfl⟩ := hserver n sc hsc
    exact ⟨_, Server.valid_worldMembers cfg, rfl⟩
  · intro pid p hp
    obtain ⟨happ, hp⟩ := start_processes hp
    obtain ⟨p', hp', hpid, _⟩ := initCommunicators_mirrors happ
    rw [hp] at hp'
    cases hp'
    exact ⟨hpid, happ⟩
  · intro pid p hp n sc hsc _
    obtain ⟨rfl, rfl⟩ := hserver n sc hsc
    obtain ⟨happ, hp⟩ := start_processes hp
    obtain ⟨p', hp', _, hworld, _⟩ := initCommunicators_mirrors happ
    rw [hp] at hp'
    cases hp'
    exact hworld
  · intro pid p hp h c hc h1 h2
    obtain ⟨happ, hp⟩ := start_processes hp
    obtain ⟨p', hp', _, _, hnone⟩ := initCommunicators_mirrors happ
    rw [hp] at hp'
    cases hp'
    obtain rfl : h = 0 := by
      by_contra hne
      rw [hnone h (by omega)] at hc
      cases hc
    exact ⟨_, rfl, Server.mem_worldMembers.mpr happ⟩

/-- **The invariant holds in every reachable state.** -/
theorem inv_of_reachable (h : Reachable cfg order s) : s.Inv cfg := by
  obtain ⟨server, hserver, hrun⟩ := h
  rw [Server.initCommWorld_eq] at hserver
  cases hserver
  induction hrun with
  | refl => exact inv_start
  | tail _ hstep ih => exact inv_step ih hstep

/-- The client `pid` holds communicator `n` as the server does, and its place in
the communicator of its local library is its local rank. -/
structure Agrees (pid : Pid) (n : Nat) (sc : Server.Communicator) (c : Communicator) :
    Prop where
  handle : c.handle = n
  number : sc.number = n
  tables : c.tables = sc.tables
  globalRank : c.globalRank = sc.tables.members.idxOf pid
  member : sc.tables.members[c.globalRank]? = some pid
  local_member : pid ∈ c.comm
  local_rank : sc.tables.localRanks[c.globalRank]? = some (c.comm.idxOf pid)
  local_size : c.comm.length = (clustersOf sc.tables.members).count (getClusterRank pid)
  recorded : c.localRank = c.comm.idxOf pid ∧ c.localSize = c.comm.length ∧
    c.globalSize = sc.tables.members.length ∧
    c.clusterCount = sc.tables.clusterRanks.length
  coordinator : ∃ m q, c.myCoordinator = some m ∧ sc.tables.members[m]? = some q ∧
    getClusterRank q = getClusterRank pid ∧ sc.tables.localRanks[m]? = some 0

/-- A client that mirrors a communicator agrees with the server. -/
theorem agrees_of_mirrors {pid : Pid} {n : Nat} {members : List Pid} {c : Communicator}
    (hnodup : members.Nodup) (h : Mirrors pid n members c) :
    Agrees pid n (Server.Communicator.fresh n (Server.tablesSpec members)) c := by
  have hpid : pid ∈ members := List.mem_of_getElem? h.globalRank
  have hcluster := mem_clustersOf hpid
  have hfirst := List.idxOf_lt_length_of_mem hcluster
  have hfirst' : (clustersOf members).idxOf (getClusterRank pid) < members.length := by
    simpa using hfirst
  obtain ⟨hlt, hget⟩ := List.getElem?_eq_some_iff.mp h.globalRank
  refine ⟨h.handle, rfl, h.tables, ?_, h.globalRank, ?_, ?_, ?_, ?_, ?_⟩
  · have hidx := hnodup.idxOf_getElem _ hlt
    rw [hget] at hidx
    exact hidx.symm
  · rw [h.comm]
    exact List.mem_filter.mpr ⟨hpid, decide_eq_true rfl⟩
  · rw [h.comm]
    exact localRanks_eq_idxOf hnodup h.globalRank
  · rw [h.comm, clusterMembers, ← List.countP_eq_length_filter, clustersOf, List.count,
      List.countP_map]
    exact List.countP_congr fun q _ => by simp
  · refine ⟨h.localRank, h.localSize, h.globalSize, ?_⟩
    rw [h.clusterCount, h.tables]
    simp [Server.tablesSpec, Server.Communicator.fresh]
  · refine ⟨_, members[(clustersOf members).idxOf (getClusterRank pid)], h.myCoordinator,
      List.getElem?_eq_getElem hfirst', ?_, ?_⟩
    · have hkey : (clustersOf members)[(clustersOf members).idxOf (getClusterRank pid)]? =
          some (getClusterRank pid) := by
        rw [List.getElem?_eq_getElem hfirst, List.getElem_idxOf hfirst]
      rw [getElem?_clustersOf, List.getElem?_eq_getElem hfirst'] at hkey
      exact Option.some.inj hkey
    · have hnone : getClusterRank pid ∉ (clustersOf members).take
          ((clustersOf members).idxOf (getClusterRank pid)) := by
        rw [List.mem_take_iff_idxOf_lt hcluster]
        exact Nat.lt_irrefl _
      have hrank := getElem?_ranks hfirst
      rw [List.getElem_idxOf hfirst, List.count_eq_zero_of_not_mem hnone] at hrank
      exact hrank

/-- A member of a communicator of the server holds it as the server does. -/
theorem agrees_of_member (h : Reachable cfg order s) {pid : Pid} {p : Process}
    (hp : s.processes pid = some p) {n : Nat} {sc : Server.Communicator}
    (hsc : s.server[n]? = some (some sc)) (hpid : pid ∈ sc.tables.members) :
    ∃ c, p.comms n = some c ∧ Agrees pid n sc c := by
  have hinv := inv_of_reachable h
  obtain ⟨c, hc, hmirrors⟩ := hinv.mirror pid p hp n sc hsc hpid
  obtain ⟨members, hvalid, rfl⟩ := hinv.communicator n sc hsc
  exact ⟨c, hc, agrees_of_mirrors hvalid.nodup hmirrors⟩

/-- **Server, clients and local libraries agree.**  In every reachable state and
for every handle but those of `COMM_SELF` and `COMM_NULL`: every running member
of a communicator of the server holds it as the server does, and no process
holds a communicator that the server does not have. -/
theorem agrees_of_reachable (h : Reachable cfg order s) {pid : Pid} {p : Process}
    (hp : s.processes pid = some p) :
    (∀ (n : Nat) sc, s.server[n]? = some (some sc) → pid ∈ sc.tables.members →
        ∃ c, p.comms n = some c ∧ Agrees pid n sc c) ∧
      ∀ (n : Nat) c, n ≠ 1 → n ≠ 2 → p.comms n = some c →
        ∃ sc, s.server[n]? = some (some sc) ∧ pid ∈ sc.tables.members ∧
          Agrees pid n sc c := by
  refine ⟨fun n sc hsc hpid => agrees_of_member h hp hsc hpid, ?_⟩
  intro n c h1 h2 hc
  obtain ⟨sc, hsc, hpid⟩ := (inv_of_reachable h).known pid p hp n c hc h1 h2
  obtain ⟨c', hc', hagrees⟩ := agrees_of_member h hp hsc hpid
  rw [hc] at hc'
  cases hc'
  exact ⟨sc, hsc, hpid, hagrees⟩

/-- A split of the world into one communicator, with the clusters in reverse
order. -/
def swap : Collective := .split (fun _ => 0) fun pid => -(getClusterRank pid : Int)

/-- The server of `Config.pair` at the start. -/
def pairServer : Server.State :=
  [some (Server.Communicator.fresh 0 (Server.tablesSpec (Server.worldMembers .pair))),
    none, none]

theorem reachable_pair : Reachable .pair .insertion (start .pair pairServer) :=
  ⟨pairServer, Server.initCommWorld_eq .pair, Relation.ReflTransGen.refl⟩

theorem running_pair :
    ∀ pid ∈ Server.worldMembers .pair, ((start .pair pairServer).processes pid).isSome :=
  List.all_eq_true.mp (by decide)

/-- The processes of `Config.pair` after the split `swap` of their world. -/
def swapped : System :=
  (start .pair pairServer).after .pair .insertion 0 swap (Server.worldMembers .pair)
    (swap.row 0 (Server.worldMembers .pair))

theorem reachable_swapped : Reachable .pair .insertion swapped := by
  refine ⟨pairServer, Server.initCommWorld_eq .pair, Relation.ReflTransGen.single ?_⟩
  have hsent : (start .pair pairServer).requests 0 swap (Server.worldMembers .pair) =
      some (swap.row 0 (Server.worldMembers .pair)) := by
    decide
  exact @Step.collective .pair .insertion (start .pair pairServer) 0 swap _ _ _ rfl trivial
    hsent (List.Perm.refl _)

theorem agrees_of_reachable_swapped :
    ∃ c, (swapped.processes 0).bind (·.comms 3) = some c ∧
      Agrees 0 3 (Server.Communicator.fresh 3 (Server.tablesSpec [setPid 1 0, 0])) c := by
  have hsome : (swapped.processes 0).isSome = true := by decide
  obtain ⟨p, hp⟩ := Option.isSome_iff_exists.mp hsome
  have hlive : swapped.server[3]? =
      some (some (Server.Communicator.fresh 3 (Server.tablesSpec [setPid 1 0, 0]))) := by
    decide
  obtain ⟨c, hc, hagrees⟩ :=
    (agrees_of_reachable reachable_swapped hp).1 3 _ hlive (by decide)
  rw [hp]
  exact ⟨c, hc, hagrees⟩

end System

end EsalsaMpi
