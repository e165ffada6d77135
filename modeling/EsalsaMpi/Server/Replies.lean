import EsalsaMpi.Server.Operations
import Mathlib.Data.List.Perm.Basic

/-!
# What an operation of the server does

The operations only add communicators to the end of the server's list, except
that `free` and `finalize` clear the slot of the communicator itself.  On
members that are application processes of the run no operation throws, and

* `processSplit_eq` gives the communicators and the replies of a split, color
  by color;
* `processGroup_eq` and `processDup_eq` do the same for the other two;
* `processRequest_destinations` shows that requests that agree are answered by
  exactly one reply to every member.
-/

namespace EsalsaMpi

open FirstOccurrence

namespace Server

/-- `pid` is an application process of the run. -/
def Config.IsApplication (cfg : Config) (pid : Pid) : Prop :=
  ∃ size, cfg.applicationSizes[EsalsaMpi.getClusterRank pid]? = some size ∧
    getProcessRank pid < size

/-- Distinct application processes of the run. -/
structure Config.Valid (cfg : Config) (pids : List Pid) : Prop where
  nodup : pids.Nodup
  application : ∀ pid ∈ pids, cfg.IsApplication pid

variable {cfg : Config} {order : HashOrder} {s : State} {c : Communicator}

/-- The cluster of an application process is one of the server's. -/
theorem Config.IsApplication.cluster_lt {pid : Pid} (h : cfg.IsApplication pid) :
    EsalsaMpi.getClusterRank pid < cfg.numberOfClusters := by
  obtain ⟨size, hsize, _⟩ := h
  exact (List.getElem?_eq_some_iff.mp hsize).1

/-- Any choice of members of a valid list is valid. -/
theorem Config.Valid.mono {pids others : List Pid} (h : cfg.Valid pids)
    (hnodup : others.Nodup) (hsub : ∀ pid ∈ others, pid ∈ pids) : cfg.Valid others :=
  ⟨hnodup, fun pid hpid => h.application pid (hsub pid hpid)⟩

/-- Creating a communicator of application processes succeeds. -/
theorem createCommunicator_eq {pids : List Pid} (s : State)
    (h : ∀ pid ∈ pids, cfg.IsApplication pid) :
    createCommunicator cfg s pids =
      some (s ++ [some (Communicator.fresh s.length (tablesSpec pids))],
        Communicator.fresh s.length (tablesSpec pids)) := by
  have hknown : ∀ k ∈ clustersOf pids, k < cfg.numberOfClusters := by
    intro k hk
    obtain ⟨pid, hpid, rfl⟩ := List.mem_map.mp hk
    exact (h pid hpid).cluster_lt
  rw [createCommunicator, tablesOf_eq, if_pos hknown]
  rfl

/-- No reply to an application process is dropped. -/
theorem enqueueReplies_eq {replies : List Reply}
    (h : ∀ m ∈ replies, EsalsaMpi.getClusterRank m.destination < cfg.numberOfClusters) :
    enqueueReplies cfg replies = replies := by
  apply List.filter_eq_self.mpr
  intro m hm
  rw [getClusterRank_eq_client]
  exact decide_eq_true (h m hm)

/-- The destinations of the replies of a split to one new communicator. -/
theorem map_destination_splitReplies (com : Communicator) (color : Int) :
    (splitReplies com color).map Reply.destination = com.tables.members := by
  apply List.ext_getElem?
  intro j
  cases hj : com.tables.members[j]? <;> simp [splitReplies, hj]

theorem destination_mem_of_mem_splitReplies {com : Communicator} {color : Int}
    {m : Reply} (hm : m ∈ splitReplies com color) : m.destination ∈ com.tables.members := by
  rw [← map_destination_splitReplies com color]
  exact List.mem_map_of_mem hm

section Split

variable (members : List Pid) (requests : List SplitRequest)

/-- The colors that get a communicator. -/
def newColors (colors : List Int) : List Int := colors.filter fun color => 0 ≤ color

/-- The communicator of one color, when the communicators of `colors` are
added to `s`. -/
def colorCommunicator (s : State) (colors : List Int) (color : Int) : Communicator :=
  Communicator.fresh (s.length + (newColors colors).idxOf color)
    (tablesSpec (colorPids members requests color))

/-- The replies to the members that asked for one color. -/
def colorReplies (s : State) (colors : List Int) (color : Int) : List Reply :=
  if 0 ≤ color then
    splitReplies (colorCommunicator members requests s colors color) color
  else
    (ofColor requests color).map fun m => simplifiedSplitReply m.source

variable {members requests}

/-- The PIDs of a color are among the members. -/
theorem mem_of_mem_colorPids {color : Int} {pid : Pid}
    (hranks : ∀ m ∈ requests, m.rank < members.length)
    (hpid : pid ∈ colorPids members requests color) : pid ∈ members := by
  obtain ⟨m, hm, rfl⟩ := List.mem_map.mp hpid
  have hm' : m ∈ requests :=
    (List.mem_filter.mp ((List.mem_insertionSort _).mp hm)).1
  rw [List.getD_eq_getElem _ _ (hranks m hm')]
  exact List.getElem_mem _

/-- **The loop over the colors.**  With the colors `done` behind it, the loop
adds one communicator for each new color among `todo` and answers them all. -/
theorem splitColors_eq (s : State) (done todo : List Int)
    (hcolors : (done ++ todo).Nodup)
    (hranks : ∀ m ∈ requests, m.rank < members.length)
    (hmembers : ∀ pid ∈ members, cfg.IsApplication pid)
    (hsources : ∀ m ∈ requests, cfg.IsApplication m.source) :
    splitColors cfg members requests
        (s ++ (newColors done).map fun k =>
          some (colorCommunicator members requests s (done ++ todo) k)) todo =
      (s ++ (newColors (done ++ todo)).map fun k =>
          some (colorCommunicator members requests s (done ++ todo) k),
        todo.flatMap (colorReplies members requests s (done ++ todo))) := by
  induction todo generalizing done with
  | nil => simp [splitColors]
  | cons color todo ih =>
      have hassoc : done ++ color :: todo = (done ++ [color]) ++ todo := by simp
      have hrest := ih (done ++ [color]) (hassoc ▸ hcolors)
      rw [← hassoc] at hrest
      have happ : ∀ pid ∈ colorPids members requests color, cfg.IsApplication pid :=
        fun pid hpid => hmembers pid (mem_of_mem_colorPids hranks hpid)
      rw [splitColors, List.flatMap_cons]
      by_cases hcolor : 0 ≤ color
      · have hnotdone : color ∉ newColors done := by
          intro hmem
          have := (List.mem_filter.mp hmem).1
          have hdisj := (List.nodup_append.mp hcolors).2.2 color this color (by simp)
          exact hdisj rfl
        have hidx : (newColors (done ++ color :: todo)).idxOf color =
            (newColors done).length := by
          simp only [newColors, List.filter_append] at hnotdone ⊢
          rw [List.idxOf_append_of_notMem hnotdone, List.filter_cons_of_pos (by simpa)]
          simp
        have hnew : newColors (done ++ [color]) = newColors done ++ [color] := by
          simp [newColors, hcolor]
        have hcom : Communicator.fresh
              (s ++ (newColors done).map fun k =>
                some (colorCommunicator members requests s
                  (done ++ color :: todo) k)).length
              (tablesSpec (colorPids members requests color)) =
            colorCommunicator members requests s (done ++ color :: todo) color := by
          rw [colorCommunicator, hidx]
          simp
        have hreplies : enqueueReplies cfg (splitReplies
              (colorCommunicator members requests s (done ++ color :: todo) color) color) =
            colorReplies members requests s (done ++ color :: todo) color := by
          rw [colorReplies, if_pos hcolor]
          apply enqueueReplies_eq
          intro m hm
          exact (happ _ (destination_mem_of_mem_splitReplies hm)).cluster_lt
        rw [hnew, List.map_append, ← List.append_assoc] at hrest
        rw [if_pos hcolor, createCommunicator_eq _ happ, hcom]
        simp only [List.map_cons, List.map_nil] at hrest
        simp only [hrest, hreplies]
      · have hnew : newColors (done ++ [color]) = newColors done := by
          simp [newColors, hcolor]
        have hreplies : enqueueReplies cfg
              ((ofColor requests color).map fun m => simplifiedSplitReply m.source) =
            colorReplies members requests s (done ++ color :: todo) color := by
          rw [colorReplies, if_neg hcolor]
          apply enqueueReplies_eq
          intro r hr
          obtain ⟨m, hm, rfl⟩ := List.mem_map.mp hr
          exact (hsources m (List.mem_filter.mp hm).1).cluster_lt
        rw [hnew] at hrest
        rw [if_neg hcolor]
        simp only [hreplies]
        rw [hrest]

/-- **A split.** -/
theorem processSplit_eq (hranks : ∀ m ∈ requests, m.rank < c.tables.members.length)
    (hmembers : ∀ pid ∈ c.tables.members, cfg.IsApplication pid)
    (hsources : ∀ m ∈ requests, cfg.IsApplication m.source) :
    processSplit cfg order s c requests =
      (let colors := order.keys (requests.map (·.color)).eraseDups
       (s ++ (newColors colors).map fun k =>
          some (colorCommunicator c.tables.members requests s colors k),
        colors.flatMap (colorReplies c.tables.members requests s colors))) := by
  have hcolors : (order.keys (requests.map (·.color)).eraseDups).Nodup :=
    (order.perm_keys _).nodup_iff.mpr (nodup_eraseDups _)
  have hloop := @splitColors_eq cfg _ _ s [] _ hcolors hranks hmembers hsources
  rw [processSplit]
  simpa [newColors] using hloop

/-- The PIDs of a color are the sources of its requests. -/
theorem colorPids_perm {color : Int}
    (hsources : ∀ m ∈ requests, members[m.rank]? = some m.source) :
    (colorPids members requests color).Perm
      ((ofColor requests color).map (·.source)) := by
  have hsame : ∀ m ∈ ofColor requests color, members.getD m.rank 0 = m.source := by
    intro m hm
    rw [List.getD_eq_getElem?_getD, hsources m (List.mem_filter.mp hm).1]
    rfl
  rw [← List.map_congr_left hsame]
  exact (List.perm_insertionSort _ _).map _

/-- A split answers the source of every request once. -/
theorem processSplit_destinations
    (hmembers : ∀ pid ∈ c.tables.members, cfg.IsApplication pid)
    (hsources : ∀ m ∈ requests, c.tables.members[m.rank]? = some m.source) :
    ((processSplit cfg order s c requests).2.map Reply.destination).Perm
      (requests.map (·.source)) := by
  have hranks : ∀ m ∈ requests, m.rank < c.tables.members.length :=
    fun m hm => (List.getElem?_eq_some_iff.mp (hsources m hm)).1
  have hknown : ∀ m ∈ requests, cfg.IsApplication m.source :=
    fun m hm => hmembers _ (List.mem_of_getElem? (hsources m hm))
  rw [processSplit_eq hranks hmembers hknown]
  simp only
  generalize hcolors : order.keys (requests.map (·.color)).eraseDups = colors
  have hperm : colors.Perm (requests.map (·.color)).eraseDups :=
    hcolors ▸ order.perm_keys _
  have hcolor : ∀ color ∈ colors,
      ((colorReplies c.tables.members requests s colors color).map Reply.destination).Perm
        ((ofColor requests color).map (·.source)) := by
    intro color _
    by_cases h : 0 ≤ color
    · rw [colorReplies, if_pos h, map_destination_splitReplies]
      exact colorPids_perm hsources
    · rw [colorReplies, if_neg h, List.map_map]
      exact List.Perm.refl _
  calc ((colors.flatMap _).map Reply.destination)
      = colors.flatMap fun color =>
          (colorReplies c.tables.members requests s colors color).map Reply.destination :=
        List.map_flatMap ..
    List.Perm _ (colors.flatMap fun color => (ofColor requests color).map (·.source)) :=
        List.Perm.flatMap_left _ hcolor
    _ = (colors.flatMap (ofColor requests)).map (·.source) := (List.map_flatMap ..).symm
    List.Perm _ (requests.map (·.source)) := by
        apply List.Perm.map
        apply perm_flatMap_filter (fun m : SplitRequest => m.color)
        · exact hperm.nodup_iff.mpr (nodup_eraseDups _)
        · intro m hm
          rw [hperm.mem_iff, List.mem_eraseDups]
          exact List.mem_map_of_mem hm

end Split

/-- **A create.**  The requests carry one group of application processes. -/
theorem processGroup_eq {group : List Pid} {others : List (List Pid)}
    (hagree : ∀ other ∈ others, other = group)
    (hgroup : ∀ pid ∈ group, cfg.IsApplication pid)
    (hmembers : ∀ pid ∈ c.tables.members, cfg.IsApplication pid) :
    processGroup cfg order s c (group :: others) =
      (let com := Communicator.fresh s.length (tablesSpec group)
       (s ++ [some com],
        (group.mapIdx fun j pid => ⟨pid, .group (com.infoFor j) .active⟩) ++
          (order.elements (c.tables.members.eraseDups.filter fun pid => pid ∉ group)).map
            fun pid => outsiderGroupReply pid (getClusterRank pid ∈ group.map getClusterRank))) := by
  have hall : (others.all fun other => group == other) = true := by
    rw [List.all_eq_true]
    intro other hother
    rw [hagree other hother]
    exact beq_self_eq_true _
  rw [processGroup, if_pos hall, createCommunicator_eq s hgroup]
  simp only
  rw [enqueueReplies_eq]
  intro m hm
  rcases List.mem_append.mp hm with hm | hm
  · obtain ⟨j, hj, rfl⟩ := List.mem_mapIdx.mp hm
    exact (hgroup _ (List.getElem_mem hj)).cluster_lt
  · obtain ⟨pid, hpid, rfl⟩ := List.mem_map.mp hm
    rw [(order.perm_elements _).mem_iff] at hpid
    have hpid' : pid ∈ c.tables.members :=
      List.mem_eraseDups.mp (List.mem_filter.mp hpid).1
    exact (hmembers pid hpid').cluster_lt

/-- A create answers the members of the group, and every other member. -/
theorem processGroup_destinations {group : List Pid} {others : List (List Pid)}
    (hagree : ∀ other ∈ others, other = group)
    (hgroup : ∀ pid ∈ group, cfg.IsApplication pid)
    (hmembers : ∀ pid ∈ c.tables.members, cfg.IsApplication pid) :
    ((processGroup cfg order s c (group :: others)).2.map Reply.destination).Perm
      (group ++ c.tables.members.eraseDups.filter fun pid => pid ∉ group) := by
  rw [processGroup_eq hagree hgroup hmembers]
  have hactive : (group.mapIdx fun j pid => (⟨pid, .group
        ((Communicator.fresh s.length (tablesSpec group)).infoFor j) .active⟩ : Reply)).map
      Reply.destination = group := by
    apply List.ext_getElem?
    intro j
    cases hj : group[j]? <;> simp [hj]
  simp only [List.map_append, hactive, List.map_map]
  apply List.Perm.append_left
  have hid : (Reply.destination ∘ fun pid => outsiderGroupReply pid
      (getClusterRank pid ∈ group.map getClusterRank)) = id := rfl
  rw [hid, List.map_id]
  exact order.perm_elements _

/-- **A dup.** -/
theorem processDup_eq (hmembers : ∀ pid ∈ c.tables.members, cfg.IsApplication pid) :
    processDup cfg s c =
      (s ++ [some (Communicator.fresh s.length (tablesSpec c.tables.members))],
        c.tables.members.map fun pid => ⟨pid, .dup s.length⟩) := by
  rw [processDup, createCommunicator_eq s hmembers]
  simp only
  rw [enqueueReplies_eq]
  · rfl
  · intro m hm
    obtain ⟨pid, hpid, rfl⟩ := List.mem_map.mp hm
    exact (hmembers pid hpid).cluster_lt

/-- The gateways of all clusters. -/
def Config.gateways (cfg : Config) : List Pid :=
  (cfg.applicationSizes.mapIdx fun i size => gatewayPids cfg i size).flatten

/-- A gateway, as its cluster and its place behind the application processes. -/
theorem Config.exists_of_mem_gateways {pid : Pid} (h : pid ∈ cfg.gateways) :
    ∃ i size j, cfg.applicationSizes[i]? = some size ∧
      EsalsaMpi.getClusterRank pid = i ∧ getProcessRank pid = size + j := by
  obtain ⟨pids, hpids, hpid⟩ := List.mem_flatten.mp h
  obtain ⟨i, hi, rfl⟩ := List.mem_mapIdx.mp hpids
  obtain ⟨j, hj, rfl⟩ := List.mem_map.mp hpid
  rw [List.mem_range] at hj
  have hi' : i < maxClusters := Nat.lt_trans hi cfg.clusters_lt
  have hle := cfg.size_le _ (List.getElem_mem hi)
  exact ⟨i, cfg.applicationSizes[i], j, List.getElem?_eq_getElem hi,
    getClusterRank_setPid hi' (by omega), getProcessRank_setPid hi' (by omega)⟩

/-- No application process is a gateway: gateways are numbered after the
application processes of their cluster. -/
theorem Config.IsApplication.not_mem_gateways {pid : Pid} (h : cfg.IsApplication pid) :
    pid ∉ cfg.gateways := by
  intro hmem
  obtain ⟨i, size, j, hsize, hcluster, hprocess⟩ := Config.exists_of_mem_gateways hmem
  obtain ⟨size', hsize', hlt⟩ := h
  rw [hcluster, hsize] at hsize'
  cases hsize'
  omega

/-- **A finalize** of the world answers the members and all gateways. -/
theorem processFinalize_eq (hnumber : c.number = 0)
    (hmembers : ∀ pid ∈ c.tables.members, cfg.IsApplication pid) :
    processFinalize cfg s c =
      (freeCommunicator s 0,
        (c.tables.members ++ cfg.gateways).map fun pid => ⟨pid, .finalize⟩) := by
  rw [processFinalize, if_pos hnumber]
  simp only
  rw [enqueueReplies_eq]
  · rfl
  · intro m hm
    obtain ⟨pid, hpid, rfl⟩ := List.mem_map.mp hm
    rcases List.mem_append.mp hpid with hpid | hpid
    · exact (hmembers pid hpid).cluster_lt
    · obtain ⟨i, _, _, hsize, hcluster, _⟩ := Config.exists_of_mem_gateways hpid
      rw [hcluster]
      exact (List.getElem?_eq_some_iff.mp hsize).1

/-- What clients ask for: a group lists distinct application processes, only
the world is finalized, and no client sends `free`. -/
def Operation.FromClient (cfg : Config) (number : Nat) : Operation → Prop
  | .split _ _ => True
  | .group pids => cfg.Valid pids
  | .dup => True
  | .free => False
  | .finalize => number = 0

/-- Requests whose opcodes agree, and whose groups do. -/
def Agree (requests : List CommunicatorRequest) : Prop :=
  ∀ m ∈ requests, ∀ m' ∈ requests,
    m.operation.opcode = m'.operation.opcode ∧ m.toGroup = m'.toGroup

/-- One request of every member of `c`, in the order of the ranks. -/
structure Communicator.IsRound (c : Communicator)
    (requests : List CommunicatorRequest) : Prop where
  length_eq : requests.length = c.size
  rank : ∀ (r : Nat) m, requests[r]? = some m → m.rank = r
  source : ∀ (r : Nat) m, requests[r]? = some m → c.tables.members[r]? = some m.source

/-- The sources of a round are the members. -/
theorem Communicator.IsRound.map_source {requests : List CommunicatorRequest}
    (h : c.IsRound requests) : requests.map (·.source) = c.tables.members := by
  apply List.ext_getElem?
  intro r
  rw [List.getElem?_map]
  cases hr : requests[r]? with
  | none =>
      have hle : c.tables.members.length ≤ r := by
        rw [← Communicator.size, ← h.length_eq]
        exact List.getElem?_eq_none_iff.mp hr
      rw [List.getElem?_eq_none hle, Option.map_none]
  | some m => rw [Option.map_some, h.source r m hr]

/-- The source of a request of a round is the member at its rank. -/
theorem Communicator.IsRound.members_rank {requests : List CommunicatorRequest}
    (h : c.IsRound requests) {m : CommunicatorRequest} (hm : m ∈ requests) :
    c.tables.members[m.rank]? = some m.source := by
  obtain ⟨r, hr⟩ := List.getElem?_of_mem hm
  rw [h.rank r m hr]
  exact h.source r m hr

/-- A request with the opcode of a split is one. -/
theorem CommunicatorRequest.toSplit_of_opcode {m : CommunicatorRequest}
    {color key : Int} (h : m.operation.opcode = (Operation.split color key).opcode) :
    ∃ l, m.toSplit = some l ∧ l.source = m.source ∧ l.rank = m.rank := by
  obtain ⟨source, communicator, rank, operation⟩ := m
  cases operation with
  | split color' key' => exact ⟨⟨source, rank, color', key'⟩, rfl, rfl, rfl⟩
  | group pids => simp [Operation.opcode] at h
  | dup => simp [Operation.opcode] at h
  | free => simp [Operation.opcode] at h
  | finalize => simp [Operation.opcode] at h

/-- The casts of `processSplit` keep every request. -/
theorem map_source_filterMap_toSplit {requests : List CommunicatorRequest}
    {color key : Int}
    (h : ∀ m ∈ requests, m.operation.opcode = (Operation.split color key).opcode) :
    (requests.filterMap (·.toSplit)).map (·.source) = requests.map (·.source) := by
  induction requests with
  | nil => rfl
  | cons m requests ih =>
      obtain ⟨l, hl, hsource, _⟩ :=
        CommunicatorRequest.toSplit_of_opcode (h m List.mem_cons_self)
      have hrest := ih fun m' hm' => h m' (List.mem_cons_of_mem _ hm')
      rw [List.filterMap_cons_some hl, List.map_cons, List.map_cons, hrest, hsource]

/-- What the casts of `processSplit` know of a request. -/
theorem exists_of_mem_filterMap_toSplit {requests : List CommunicatorRequest}
    {l : SplitRequest} (hl : l ∈ requests.filterMap (·.toSplit)) :
    ∃ m ∈ requests, l.source = m.source ∧ l.rank = m.rank ∧
      m.operation = .split l.color l.key := by
  obtain ⟨m, hm, htoSplit⟩ := List.mem_filterMap.mp hl
  obtain ⟨source, communicator, rank, operation⟩ := m
  cases operation with
  | split color key =>
      cases htoSplit
      exact ⟨_, hm, rfl, rfl, rfl⟩
  | group pids => cases htoSplit
  | dup => cases htoSplit
  | free => cases htoSplit
  | finalize => cases htoSplit

/-- **One reply to every member.**  Requests that agree are answered by exactly
one reply to each member of the communicator. -/
theorem processRequest_destinations {requests : List CommunicatorRequest}
    (hround : c.IsRound requests) (hvalid : cfg.Valid c.tables.members)
    (hagree : Agree requests)
    (hclient : ∀ m ∈ requests, m.operation.FromClient cfg c.number)
    {pid : Pid} (hpid : pid ∈ c.tables.members) :
    ((processRequest cfg order s c requests).2.map Reply.destination).count pid = 1 := by
  have hone : c.tables.members.count pid = 1 :=
    List.count_eq_one_of_mem hvalid.nodup hpid
  cases requests with
  | nil =>
      have hempty : c.tables.members = [] := hround.map_source.symm
      simp [hempty] at hpid
  | cons first others =>
      have hopcodes : (others.all fun m =>
          m.operation.opcode == first.operation.opcode) = true := by
        rw [List.all_eq_true]
        intro m hm
        have := (hagree m (List.mem_cons_of_mem _ hm) first List.mem_cons_self).1
        exact beq_iff_eq.mpr this
      have hfirst := hclient first List.mem_cons_self
      rw [processRequest, if_pos hopcodes]
      cases hop : first.operation with
      | split color key =>
          have hall : ∀ m ∈ first :: others,
              m.operation.opcode = (Operation.split color key).opcode := fun m hm =>
            hop ▸ (hagree m hm first List.mem_cons_self).1
          have hsources : ∀ l ∈ (first :: others).filterMap (·.toSplit),
              c.tables.members[l.rank]? = some l.source := by
            intro l hl
            obtain ⟨m, hm, hsource, hrank, _⟩ := exists_of_mem_filterMap_toSplit hl
            rw [hrank, hsource]
            exact hround.members_rank hm
          have hperm := @processSplit_destinations cfg order s c _
            hvalid.application hsources
          rw [map_source_filterMap_toSplit hall, hround.map_source] at hperm
          exact (hperm.count_eq pid).trans hone
      | group pids =>
          have hgroup : first.toGroup = some pids := by
            simp [CommunicatorRequest.toGroup, hop]
          have hothers : ∀ other ∈ others.filterMap (·.toGroup), other = pids := by
            intro other hother
            obtain ⟨m, hm, hother⟩ := List.mem_filterMap.mp hother
            have := (hagree m (List.mem_cons_of_mem _ hm) first List.mem_cons_self).2
            rw [hother, hgroup] at this
            exact Option.some.inj this
          rw [hop] at hfirst
          have hperm := @processGroup_destinations cfg order s c _ _ hothers
            hfirst.application hvalid.application
          simp only [List.filterMap_cons_some hgroup]
          rw [hperm.count_eq, List.count_append]
          by_cases hmem : pid ∈ pids
          · rw [List.count_eq_one_of_mem hfirst.nodup hmem, List.count_eq_zero_of_not_mem
              (by simp [hmem])]
          · have hstays : pid ∈ c.tables.members.eraseDups.filter fun pid => pid ∉ pids := by
              simp [List.mem_eraseDups, hmem, hpid]
            rw [List.count_eq_zero_of_not_mem hmem, List.count_eq_one_of_mem
              ((nodup_eraseDups _).filter _) hstays]
      | dup =>
          simp only
          rw [processDup_eq hvalid.application]
          simpa [Function.comp_def] using hone
      | free =>
          rw [hop] at hfirst
          exact hfirst.elim
      | finalize =>
          rw [hop] at hfirst
          have hgateway := (hvalid.application pid hpid).not_mem_gateways
          simp only
          rw [processFinalize_eq hfirst hvalid.application, List.map_map]
          simpa [Function.comp_def, List.count_eq_zero_of_not_mem hgateway] using hone

/-- `s'` is `s` with new communicators of application processes at its end. -/
def Appends (cfg : Config) (s s' : State) : Prop :=
  ∃ rows : List (List Pid), (∀ pids ∈ rows, cfg.Valid pids) ∧
    s' = s ++ rows.mapIdx fun i pids =>
      some (Communicator.fresh (s.length + i) (tablesSpec pids))

theorem Appends.refl (cfg : Config) (s : State) : Appends cfg s s :=
  ⟨[], by simp, by simp⟩

theorem Appends.singleton {pids : List Pid} (s : State) (h : cfg.Valid pids) :
    Appends cfg s (s ++ [some (Communicator.fresh s.length (tablesSpec pids))]) :=
  ⟨[pids], by simpa using h, by simp⟩

/-- The requests of one color come from distinct members. -/
theorem valid_colorPids {members : List Pid} {requests : List SplitRequest}
    (hvalid : cfg.Valid members)
    (hsources : ∀ m ∈ requests, members[m.rank]? = some m.source)
    (hnodup : (requests.map (·.source)).Nodup) (color : Int) :
    cfg.Valid (colorPids members requests color) := by
  have hranks : ∀ m ∈ requests, m.rank < members.length :=
    fun m hm => (List.getElem?_eq_some_iff.mp (hsources m hm)).1
  refine hvalid.mono ?_ fun pid hpid => mem_of_mem_colorPids hranks hpid
  rw [(colorPids_perm hsources).nodup_iff]
  exact hnodup.sublist (List.filter_sublist.map _)

/-- The new communicators of a split, numbered from the end of the list on. -/
theorem map_colorCommunicator {members : List Pid} {requests : List SplitRequest}
    {colors : List Int} (s : State) (hnodup : colors.Nodup) :
    ((newColors colors).map fun k =>
        some (colorCommunicator members requests s colors k)) =
      ((newColors colors).map (colorPids members requests)).mapIdx fun i pids =>
        some (Communicator.fresh (s.length + i) (tablesSpec pids)) := by
  apply List.ext_getElem?
  intro i
  cases hi : (newColors colors)[i]? with
  | none => simp [hi]
  | some color =>
      obtain ⟨hlt, rfl⟩ := List.getElem?_eq_some_iff.mp hi
      have hidx : (newColors colors).idxOf (newColors colors)[i] = i :=
        (hnodup.filter _).idxOf_getElem i hlt
      simp [hlt, colorCommunicator, hidx]

/-- A split appends communicators. -/
theorem processSplit_appends {requests : List SplitRequest}
    (hvalid : cfg.Valid c.tables.members)
    (hsources : ∀ m ∈ requests, c.tables.members[m.rank]? = some m.source)
    (hnodup : (requests.map (·.source)).Nodup) :
    Appends cfg s (processSplit cfg order s c requests).1 := by
  have hranks : ∀ m ∈ requests, m.rank < c.tables.members.length :=
    fun m hm => (List.getElem?_eq_some_iff.mp (hsources m hm)).1
  have hknown : ∀ m ∈ requests, cfg.IsApplication m.source :=
    fun m hm => hvalid.application _ (List.mem_of_getElem? (hsources m hm))
  rw [processSplit_eq hranks hvalid.application hknown]
  simp only
  generalize hcolors : order.keys (requests.map (·.color)).eraseDups = colors
  have hcolorsNodup : colors.Nodup := by
    rw [← hcolors, (order.perm_keys _).nodup_iff]
    exact nodup_eraseDups _
  refine ⟨(newColors colors).map (colorPids c.tables.members requests), ?_,
    congrArg _ (map_colorCommunicator s hcolorsNodup)⟩
  intro pids hpids
  obtain ⟨color, _, rfl⟩ := List.mem_map.mp hpids
  exact valid_colorPids hvalid hsources hnodup color

/-- **What an operation does to the server's list**: it appends communicators,
or frees its own. -/
theorem processRequest_state {requests : List CommunicatorRequest}
    (hround : c.IsRound requests) (hvalid : cfg.Valid c.tables.members)
    (hclient : ∀ m ∈ requests, m.operation.FromClient cfg c.number) :
    Appends cfg s (processRequest cfg order s c requests).1 ∨
      (processRequest cfg order s c requests).1 = s.set c.number none := by
  cases requests with
  | nil => exact Or.inl (Appends.refl cfg s)
  | cons first others =>
      rw [processRequest]
      by_cases hopcodes : (others.all fun m =>
          m.operation.opcode == first.operation.opcode) = true
      · rw [if_pos hopcodes]
        have hall : ∀ m ∈ first :: others,
            m.operation.opcode = first.operation.opcode := by
          intro m hm
          rcases List.mem_cons.mp hm with rfl | hm
          · rfl
          · exact beq_iff_eq.mp (List.all_eq_true.mp hopcodes m hm)
        have hfirst := hclient first List.mem_cons_self
        cases hop : first.operation with
        | split color key =>
            left
            apply processSplit_appends hvalid
            · intro l hl
              obtain ⟨m, hm, hsource, hrank, _⟩ := exists_of_mem_filterMap_toSplit hl
              rw [hrank, hsource]
              exact hround.members_rank hm
            · rw [map_source_filterMap_toSplit (hop ▸ hall), hround.map_source]
              exact hvalid.nodup
        | group pids =>
            left
            rw [hop] at hfirst
            have hgroup : first.toGroup = some pids := by
              simp [CommunicatorRequest.toGroup, hop]
            simp only [List.filterMap_cons_some hgroup]
            by_cases hagree : ∀ other ∈ others.filterMap (·.toGroup), other = pids
            · rw [processGroup_eq hagree hfirst.application hvalid.application]
              exact Appends.singleton s hfirst
            · have hmismatch : ¬ ((others.filterMap (·.toGroup)).all fun other =>
                  pids == other) = true := by
                intro hall
                apply hagree
                intro other hother
                exact (beq_iff_eq.mp (List.all_eq_true.mp hall other hother)).symm
              rw [processGroup, if_neg hmismatch]
              exact Appends.refl cfg s
        | dup =>
            left
            simp only
            rw [processDup_eq hvalid.application]
            exact Appends.singleton s hvalid
        | free => exact Or.inr rfl
        | finalize =>
            right
            rw [hop] at hfirst
            have hnumber : c.number = 0 := hfirst
            simp only
            rw [processFinalize_eq hnumber hvalid.application, hnumber]
            rfl
      · rw [if_neg hopcodes]
        exact Or.inl (Appends.refl cfg s)

end Server

end EsalsaMpi
