import EsalsaMpi.Server.Delivery
import EsalsaMpi.Server.World

/-!
# What a split is for

The members of a communicator ask for a color and a key each.  The split
answers every member once, creates one communicator for each color that is not
negative, of the members that asked for it, ordered by key and then by old
rank, and tells each of them its place (`splitsByColor_of_requests`).
-/

namespace EsalsaMpi

open FirstOccurrence

namespace Server

variable {cfg : Config} {order : HashOrder} {s : State} {members : List Pid}
  {color key : Pid → Int} {n : Nat}

/-- The requests of the members for a split, in the order of the ranks. -/
def splitRequests (n : Nat) (members : List Pid) (color key : Pid → Int) :
    List CommunicatorRequest :=
  members.mapIdx fun r pid => ⟨pid, n, r, .split (color pid) (key pid)⟩

/-- The members that ask for the color `k`, by key and then by old rank. -/
structure IsColorGroup (members : List Pid) (color key : Pid → Int) (k : Int)
    (pids : List Pid) : Prop where
  perm : pids.Perm (members.filter fun pid => color pid = k)
  ordered : pids.Pairwise fun p q =>
    key p < key q ∨ (key p = key q ∧ members.idxOf p < members.idxOf q)

/-- What a split of `members` at a server with state `s` leads to, with a row for
each new communicator: its color and its members. -/
structure SplitsByColor (members : List Pid) (color key : Pid → Int) (s : State)
    (result : State × List Reply) (rows : List (Int × List Pid)) : Prop where
  distinct : (rows.map Prod.fst).Nodup
  colors : ∀ k, k ∈ rows.map Prod.fst ↔ 0 ≤ k ∧ ∃ pid ∈ members, color pid = k
  groups : ∀ row ∈ rows, IsColorGroup members color key row.1 row.2
  communicators : result.1 = s ++ rows.mapIdx fun i row =>
    some (Communicator.fresh (s.length + i) (tablesSpec row.2))
  destinations : (result.2.map Reply.destination).Perm members
  undefined : ∀ m ∈ result.2, color m.destination < 0 → m = simplifiedSplitReply m.destination
  replies : ∀ (i : Nat) row, rows[i]? = some row → ∀ m ∈ result.2,
    color m.destination = row.1 → ∃ j : Nat, row.2[j]? = some m.destination ∧
      m.body = .split ((Communicator.fresh (s.length + i) (tablesSpec row.2)).infoFor j) row.1
        ((ranks (clustersOf row.2)).getD j 0)

/-- The requests, as the split reads them. -/
def splitsOf (members : List Pid) (color key : Pid → Int) : List SplitRequest :=
  members.mapIdx fun r pid => ⟨pid, r, color pid, key pid⟩

theorem filterMap_toSplit (n : Nat) (members : List Pid) (color key : Pid → Int) :
    (splitRequests n members color key).filterMap (·.toSplit) = splitsOf members color key := by
  induction members using List.reverseRecOn with
  | nil => rfl
  | append_singleton members pid ih =>
      rw [splitRequests] at ih ⊢
      rw [splitsOf] at ih ⊢
      rw [List.mapIdx_concat, List.filterMap_append, ih, List.mapIdx_concat]
      rfl

/-- The server's part of a split. -/
theorem processRequest_splitRequests {c : Communicator} (hc : c.tables.members = members) :
    processRequest cfg order s c (splitRequests n members color key) =
      processSplit cfg order s c (splitsOf members color key) := by
  cases members with
  | nil =>
      have hkeys : order.keys [] = [] := List.perm_nil.mp (order.perm_keys [])
      simp [splitRequests, splitsOf, processRequest, processSplit, splitColors, hkeys]
  | cons first rest =>
      have hopcode : ((rest.mapIdx fun r pid => (⟨pid, n, r + 1, .split (color pid) (key pid)⟩ :
          CommunicatorRequest)).all fun m => m.operation.opcode == 51) = true := by
        rw [List.all_eq_true]
        intro m hm
        obtain ⟨r, hr, rfl⟩ := List.mem_mapIdx.mp hm
        rfl
      rw [← filterMap_toSplit n, splitRequests, List.mapIdx_cons, processRequest]
      exact if_pos hopcode

/-- The request of a member has its rank. -/
theorem mem_splitsOf {m : SplitRequest} :
    m ∈ splitsOf members color key ↔ members[m.rank]? = some m.source ∧
      m.color = color m.source ∧ m.key = key m.source := by
  constructor
  · intro hm
    obtain ⟨r, hr, rfl⟩ := List.mem_mapIdx.mp hm
    exact ⟨List.getElem?_eq_getElem hr, rfl, rfl⟩
  · intro ⟨hm, hcolor, hkey⟩
    obtain ⟨hr, hsource⟩ := List.getElem?_eq_some_iff.mp hm
    refine List.mem_mapIdx.mpr ⟨m.rank, hr, ?_⟩
    rw [hsource, ← hcolor, ← hkey]

theorem map_source_splitsOf : (splitsOf members color key).map (·.source) = members := by
  apply List.ext_getElem?
  intro r
  cases hr : members[r]? <;> simp [splitsOf, hr]

/-- The members that ask for one color, as the server collects them. -/
theorem map_source_ofColor (k : Int) :
    (ofColor (splitsOf members color key) k).map (·.source) =
      members.filter fun pid => color pid = k := by
  have hcolor : ∀ m ∈ splitsOf members color key,
      decide (m.color = k) = decide (color m.source = k) := by
    intro m hm
    rw [(mem_splitsOf.mp hm).2.1]
  rw [ofColor, List.filter_congr hcolor]
  conv_rhs => rw [← @map_source_splitsOf members color key]
  rw [List.filter_map]
  rfl

instance : Std.Total SplitRequest.Le where
  total o1 o2 := by
    unfold SplitRequest.Le
    omega

instance : IsTrans SplitRequest SplitRequest.Le where
  trans o1 o2 o3 h12 h23 := by
    unfold SplitRequest.Le at h12 h23 ⊢
    omega

/-- **The order of a new communicator.**  The sort by `ColorComparator` puts the
members of a color in the order of their keys and old ranks. -/
theorem isColorGroup_colorPids (hnodup : members.Nodup) (k : Int) :
    IsColorGroup members color key k (colorPids members (splitsOf members color key) k) := by
  have hsources : ∀ m ∈ splitsOf members color key, members[m.rank]? = some m.source :=
    fun m hm => (mem_splitsOf.mp hm).1
  constructor
  · have hperm := @colorPids_perm members (splitsOf members color key) k hsources
    rwa [map_source_ofColor] at hperm
  · have hsorted := List.pairwise_insertionSort SplitRequest.Le
      (ofColor (splitsOf members color key) k)
    have hdistinct : ((ofColor (splitsOf members color key) k).insertionSort
        SplitRequest.Le).Nodup := by
      rw [(List.perm_insertionSort _ _).nodup_iff]
      apply List.Nodup.filter
      exact List.Nodup.of_map (·.source) (map_source_splitsOf.symm ▸ hnodup)
    have hboth := List.Pairwise.and hsorted hdistinct
    rw [colorPids, List.pairwise_map]
    apply List.Pairwise.imp_of_mem _ hboth
    intro m m' hm hm' hle
    have hsplit : ∀ m ∈ (ofColor (splitsOf members color key) k).insertionSort SplitRequest.Le,
        m ∈ splitsOf members color key := by
      intro m hm
      exact (List.mem_filter.mp ((List.mem_insertionSort _).mp hm)).1
    obtain ⟨hm, hcolor, hkey⟩ := mem_splitsOf.mp (hsplit m hm)
    obtain ⟨hm', hcolor', hkey'⟩ := mem_splitsOf.mp (hsplit m' hm')
    have hplace : ∀ {m : SplitRequest}, members[m.rank]? = some m.source →
        members.getD m.rank 0 = m.source ∧ members.idxOf m.source = m.rank := by
      intro m hm
      obtain ⟨hlt, hget⟩ := List.getElem?_eq_some_iff.mp hm
      rw [List.getD_eq_getElem?_getD, hm, Option.getD_some, ← hget]
      exact ⟨rfl, hnodup.idxOf_getElem _ hlt⟩
    rw [(hplace hm).1, (hplace hm').1, (hplace hm).2, (hplace hm').2, ← hkey, ← hkey']
    rcases hle.1 with hlt | ⟨heq, hrank⟩
    · exact Or.inl hlt
    · refine Or.inr ⟨heq, Nat.lt_of_le_of_ne hrank ?_⟩
      intro hsame
      -- two requests with one rank are one request
      apply hle.2
      rw [hsame] at hm
      have hsource : m.source = m'.source := Option.some.inj (hm.symm.trans hm')
      obtain ⟨source, rank, c, k⟩ := m
      obtain ⟨source', rank', c', k'⟩ := m'
      simp only at hsource hsame hcolor hcolor' heq
      rw [hsource] at hcolor
      rw [SplitRequest.mk.injEq]
      exact ⟨hsource, hsame, hcolor.trans hcolor'.symm, heq⟩

/-- A reply for one color goes to a member that asked for it. -/
theorem color_of_mem_colorReplies {colors : List Int} {k : Int} {m : Reply}
    (hnodup : members.Nodup)
    (hm : m ∈ colorReplies members (splitsOf members color key) s colors k) :
    color m.destination = k := by
  unfold colorReplies at hm
  split at hm
  · have hdest := destination_mem_of_mem_splitReplies hm
    have hgroup := (isColorGroup_colorPids hnodup k).perm.mem_iff.mp hdest
    exact of_decide_eq_true (List.mem_filter.mp hgroup).2
  · obtain ⟨request, hrequest, rfl⟩ := List.mem_map.mp hm
    obtain ⟨hrequest, hk⟩ := List.mem_filter.mp hrequest
    exact (mem_splitsOf.mp hrequest).2.1.symm.trans (of_decide_eq_true hk)

/-- **What the server does for a split**, whatever the order in which the
requests arrive. -/
theorem splitsByColor_of_requests {arrived : List CommunicatorRequest}
    (hvalid : cfg.Valid members)
    (hlive : s[n]? = some (some (Communicator.fresh n (tablesSpec members))))
    (harrived : arrived.Perm (splitRequests n members color key)) :
    ∃ rows, SplitsByColor members color key s (deliverAll cfg order s arrived) rows := by
  have hsources : ∀ m ∈ splitsOf members color key, members[m.rank]? = some m.source :=
    fun m hm => (mem_splitsOf.mp hm).1
  have hranks : ∀ m ∈ splitsOf members color key, m.rank < members.length :=
    fun m hm => (List.getElem?_eq_some_iff.mp (hsources m hm)).1
  have hknown : ∀ m ∈ splitsOf members color key, cfg.IsApplication m.source :=
    fun m hm => hvalid.application _ (List.mem_of_getElem? (hsources m hm))
  have hrow : IsRow n (splitRequests n members color key) := by
    constructor
    · intro m hm
      obtain ⟨r, hr, rfl⟩ := List.mem_mapIdx.mp hm
      rfl
    · intro r m hm
      rw [splitRequests, List.getElem?_mapIdx] at hm
      obtain ⟨pid, _, rfl⟩ := Option.map_eq_some_iff.mp hm
      rfl
  have hlength : (splitRequests n members color key).length =
      (tablesSpec members).members.length := by
    simp [splitRequests, tablesSpec]
  have hfull : (Communicator.full n (tablesSpec members)
      (splitRequests n members color key)).tables.members = members := rfl
  rw [deliverAll_eq hlive hrow hlength harrived, processRequest_splitRequests hfull]
  have hdestinations := @processSplit_destinations cfg order s (Communicator.full n
    (tablesSpec members) (splitRequests n members color key)) (splitsOf members color key)
    hvalid.application hsources
  rw [map_source_splitsOf] at hdestinations
  rw [@processSplit_eq cfg order s (Communicator.full n (tablesSpec members)
    (splitRequests n members color key)) (splitsOf members color key) hranks
    hvalid.application hknown] at hdestinations ⊢
  simp only [hfull] at hdestinations ⊢
  have hcolors : ∀ k, k ∈ order.keys ((splitsOf members color key).map (·.color)).eraseDups ↔
      ∃ pid ∈ members, color pid = k := by
    intro k
    rw [(order.perm_keys _).mem_iff, List.mem_eraseDups, List.mem_map]
    constructor
    · rintro ⟨m, hm, rfl⟩
      obtain ⟨hm, hcolor, _⟩ := mem_splitsOf.mp hm
      exact ⟨m.source, List.mem_of_getElem? hm, hcolor.symm⟩
    · rintro ⟨pid, hpid, rfl⟩
      obtain ⟨r, hr⟩ := List.getElem?_of_mem hpid
      exact ⟨⟨pid, r, color pid, key pid⟩, mem_splitsOf.mpr ⟨hr, rfl, rfl⟩, rfl⟩
  have hdistinct : (order.keys ((splitsOf members color key).map (·.color)).eraseDups).Nodup :=
    (order.perm_keys _).nodup_iff.mpr (nodup_eraseDups _)
  generalize order.keys ((splitsOf members color key).map (·.color)).eraseDups = colors
    at hcolors hdistinct hdestinations ⊢
  refine ⟨(newColors colors).map fun k => (k, colorPids members (splitsOf members color key) k),
    ?_, ?_, ?_, ?_, hdestinations, ?_, ?_⟩
  · simpa [List.map_map, Function.comp_def, newColors] using hdistinct.filter _
  · intro k
    simp only [List.map_map, Function.comp_def, List.map_id', newColors, List.mem_filter,
      decide_eq_true_eq, hcolors]
    exact And.comm
  · intro row hrow
    obtain ⟨k, _, rfl⟩ := List.mem_map.mp hrow
    exact isColorGroup_colorPids hvalid.nodup k
  · rw [map_colorCommunicator s hdistinct]
    refine congrArg (s ++ ·) (List.ext_getElem? fun i => ?_)
    simp [List.getElem?_mapIdx, Option.map_map, Function.comp_def]
  · intro m hm hnegative
    obtain ⟨k, hk, hm⟩ := List.mem_flatMap.mp hm
    have hcolor := color_of_mem_colorReplies hvalid.nodup hm
    rw [colorReplies, if_neg (by omega)] at hm
    obtain ⟨request, _, rfl⟩ := List.mem_map.mp hm
    rfl
  · intro i row hi m hm hrow
    obtain ⟨k, hk, hm⟩ := List.mem_flatMap.mp hm
    rw [color_of_mem_colorReplies hvalid.nodup hm] at hrow
    rw [List.getElem?_map] at hi
    obtain ⟨k', hk', rfl⟩ := Option.map_eq_some_iff.mp hi
    subst hrow
    obtain ⟨hlt, hget⟩ := List.getElem?_eq_some_iff.mp hk'
    have hidx : (newColors colors).idxOf k = i := by
      rw [← hget]
      exact (hdistinct.filter _).idxOf_getElem i hlt
    have hnew : 0 ≤ k := of_decide_eq_true (List.mem_filter.mp (List.mem_of_getElem? hk')).2
    rw [colorReplies, if_pos hnew, splitReplies, colorCommunicator, hidx] at hm
    obtain ⟨j, hj, rfl⟩ := List.mem_mapIdx.mp hm
    exact ⟨j, List.getElem?_eq_getElem hj, rfl⟩

/-- A split of the world of two processes into two communicators. -/
theorem splitsByColor_pair :
    ∃ rows, SplitsByColor (worldMembers .pair) (fun pid => getClusterRank pid) (fun _ => 0)
      [some (Communicator.fresh 0 (tablesSpec (worldMembers .pair))), none, none]
      (deliverAll .pair .insertion
        [some (Communicator.fresh 0 (tablesSpec (worldMembers .pair))), none, none]
        (splitRequests 0 (worldMembers .pair) (fun pid => getClusterRank pid)
          fun _ => 0).reverse) rows :=
  splitsByColor_of_requests (valid_worldMembers .pair) rfl (List.reverse_perm _)

end Server

end EsalsaMpi
