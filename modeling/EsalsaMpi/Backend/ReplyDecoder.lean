import EsalsaMpi.Backend.Mirror
import EsalsaMpi.Server.ReplyMessages

/-!
# The client reads the replies of the server

`messaging_comm_split_receive` and `messaging_comm_create_receive` lay a
struct over the message and copy the arrays behind it.  The message is the
memory that `receive_server_message_varlen` has allocated for it, so a load
outside of the message is undefined; the decoders end with `none` there, and
on an unexpected opcode.  Allocation succeeds, also of nothing.

A reply makes the round trip when the announced length is the number of bytes
written and the decoder returns the fields and the arrays of the reply.  All
replies do whose length is an `int`: `roundTrips_iff`.
-/

namespace EsalsaMpi

open Wire

/-- The arrays of a `comm_reply` or a `group_reply`; `none` is `NULL`. -/
structure ReplyArrays where
  coordinators : Option (List UInt32)
  clusterSizes : Option (List UInt32)
  clusterRanks : Option (List UInt32)
  members : Option (List UInt32)
  memberClusterIndex : Option (List UInt32)
  localRanks : Option (List UInt32)
deriving DecidableEq, Repr

/-- Six times `NULL`. -/
def ReplyArrays.null : ReplyArrays := ⟨none, none, none, none, none, none⟩

/-- `comm_reply`. -/
structure CommReply where
  newComm : Int32
  rank : Int32
  size : Int32
  color : Int32
  key : Int32
  clusterCount : Int32
  flags : Int32
  arrays : ReplyArrays
deriving DecidableEq

/-- `group_reply`. -/
structure GroupReply where
  newComm : Int32
  rank : Int32
  size : Int32
  type : Int32
  clusterCount : Int32
  flags : Int32
  arrays : ReplyArrays
deriving DecidableEq

/-- Word `k` of a message, `ntohl` applied, as an `int`. -/
def intAt (o : ByteOrder) (msg : List UInt8) (k : Nat) : Option Int32 :=
  (o.networkWord msg k).map UInt32.toInt32

/-- `copy_int_array`, for a payload that starts at word `payload` of the
message. -/
def copyIntArray (o : ByteOrder) (msg : List UInt8) (payload : Nat) (offset len : Int) :
    Option (List UInt32) :=
  (List.range len.toNat).mapM fun (i : Nat) =>
    if 0 ≤ offset + i then
      o.networkWord msg (payload + (offset + i).toNat)
    else
      none

/-- The copies of the six arrays. -/
def copyReplyArrays (o : ByteOrder) (msg : List UInt8) (payload : Nat)
    (clusterCount size : Int) : Option ReplyArrays := do
  let coordinators ← copyIntArray o msg payload 0 clusterCount
  let clusterSizes ← copyIntArray o msg payload clusterCount clusterCount
  let clusterRanks ← copyIntArray o msg payload (2 * clusterCount) clusterCount
  if size > 0 then
    let members ← copyIntArray o msg payload (3 * clusterCount) size
    let memberClusterIndex ← copyIntArray o msg payload (3 * clusterCount + size) size
    let localRanks ← copyIntArray o msg payload (3 * clusterCount + 2 * size) size
    return ⟨some coordinators, some clusterSizes, some clusterRanks, some members,
      some memberClusterIndex, some localRanks⟩
  else
    return ⟨some coordinators, some clusterSizes, some clusterRanks, none, none, none⟩

/-- `messaging_comm_split_receive`. -/
def messagingCommSplitReceive (o : ByteOrder) (msg : List UInt8) : Option CommReply := do
  let opcode ← intAt o msg 0
  if opcode ≠ 52 then
    none
  let newComm ← intAt o msg 4
  let rank ← intAt o msg 5
  let size ← intAt o msg 6
  let color ← intAt o msg 7
  let key ← intAt o msg 8
  let clusterCount ← intAt o msg 9
  let flags ← intAt o msg 10
  let arrays ← copyReplyArrays o msg 11 clusterCount.toInt size.toInt
  return ⟨newComm, rank, size, color, key, clusterCount, flags, arrays⟩

/-- `messaging_comm_create_receive`. -/
def messagingCommCreateReceive (o : ByteOrder) (msg : List UInt8) : Option GroupReply := do
  let opcode ← intAt o msg 0
  if opcode ≠ 54 then
    none
  let newComm ← intAt o msg 4
  let rank ← intAt o msg 5
  let size ← intAt o msg 6
  let type ← intAt o msg 7
  let clusterCount ← intAt o msg 8
  let flags ← intAt o msg 9
  let arrays ←
    if type = 0 then copyReplyArrays o msg 10 clusterCount.toInt size.toInt
    else pure ReplyArrays.null
  return ⟨newComm, rank, size, type, clusterCount, flags, arrays⟩

/-- The integers of an array; `NULL` stands for no array. -/
def contents (array : Option (List UInt32)) : List Int32 :=
  (array.getD []).map UInt32.toInt32

/-- The arrays of a reply at the client are those of the server. -/
structure ReplyArrays.Holds (c : ReplyArrays) (coordinators clusterSizes clusterRanks members
    memberClusterIndex localRanks : List Int32) : Prop where
  coordinators : contents c.coordinators = coordinators
  clusterSizes : contents c.clusterSizes = clusterSizes
  clusterRanks : contents c.clusterRanks = clusterRanks
  members : contents c.members = members
  memberClusterIndex : contents c.memberClusterIndex = memberClusterIndex
  localRanks : contents c.localRanks = localRanks

/-- The client holds the split reply of the server. -/
structure CommReply.Holds (c : CommReply) (r : Server.SplitReply) : Prop where
  newComm : c.newComm = r.newComm
  rank : c.rank = r.rank
  size : c.size = r.size
  color : c.color = r.color
  key : c.key = r.key
  clusterCount : c.clusterCount = r.clusterCount
  flags : c.flags = r.flags
  arrays : c.arrays.Holds r.coordinators r.clusterSizes r.clusterRanks r.members
    r.memberClusterIndex r.localRanks

/-- The client holds the group reply of the server. -/
structure GroupReply.Holds (c : GroupReply) (r : Server.GroupReply) : Prop where
  newComm : c.newComm = r.newComm
  rank : c.rank = r.rank
  size : c.size = r.size
  type : c.type = r.type
  clusterCount : c.clusterCount = r.clusterCount
  flags : c.flags = r.flags
  arrays : c.arrays.Holds r.coordinators r.clusterSizes r.clusterRanks r.members
    r.memberClusterIndex r.localRanks

/-- A split reply makes the round trip. -/
def Server.SplitReply.RoundTrips (o : ByteOrder) (r : SplitReply) : Prop :=
  ∃ bytes c, r.write = some bytes ∧ (bytes.length : Int) = r.length.toInt ∧
    messagingCommSplitReceive o bytes = some c ∧ c.Holds r

/-- A group reply makes the round trip. -/
def Server.GroupReply.RoundTrips (o : ByteOrder) (r : GroupReply) : Prop :=
  ∃ bytes c, r.write = some bytes ∧ (bytes.length : Int) = r.length.toInt ∧
    messagingCommCreateReceive o bytes = some c ∧ c.Holds r

variable {o : ByteOrder}

@[simp] theorem contents_some_wordsOf (xs : List Int32) :
    contents (some (Server.wordsOf xs)) = xs := by
  simp [contents, Server.wordsOf, Function.comp_def]

/-- A scalar field in front of the arrays. -/
theorem intAt_bytesOf (xs : List Int32) (ws : List UInt32) {k : Nat} (hk : k < xs.length) :
    intAt o (bytesOf (Server.wordsOf xs ++ ws)) k = xs[k]? := by
  rw [intAt, networkWord_bytesOf, List.getElem?_append_left (by simpa using hk),
    Server.wordsOf, List.getElem?_map, Option.map_map]
  exact congrArg (· xs[k]?) Option.map_id

/-- The copy of one array, with `before` in front of it in the payload. -/
theorem copyIntArray_row (xs row : List Int32) {before ws : List UInt32} {offset len : Int}
    (hws : before ++ Server.wordsOf row <+: ws) (hoffset : offset = before.length)
    (hlen : len = row.length) :
    copyIntArray o (bytesOf (Server.wordsOf xs ++ ws)) xs.length offset len =
      some (Server.wordsOf row) := by
  obtain ⟨after, hws⟩ := hws
  have hlen' : len.toNat = (Server.wordsOf row).length := by
    rw [hlen, Int.toNat_natCast, Server.length_wordsOf]
  have hblock : Server.wordsOf xs ++ ws =
      (Server.wordsOf xs ++ before) ++ Server.wordsOf row ++ after := by
    rw [← hws]
    simp only [List.append_assoc]
  rw [copyIntArray, hlen']
  apply mapM_range_eq_some
  intro i hi
  have hplace : xs.length + (offset + i).toNat =
      (Server.wordsOf xs ++ before).length + i := by
    rw [List.length_append, Server.length_wordsOf]
    omega
  rw [if_pos (by omega), hplace, hblock, networkWord_row o _ _ _ hi]

/-- **The copies of the arrays**, which lie behind the scalar fields. -/
theorem copyReplyArrays_words (xs : List Int32) (a : Server.Arrays) :
    ∃ c, copyReplyArrays o (bytesOf (Server.wordsOf xs ++ a.words)) xs.length
        a.clusterCount.toInt a.size.toInt = some c ∧
      c.Holds a.coordinators a.clusterSizes a.clusterRanks a.members a.memberClusterIndex
        a.localRanks := by
  have hsizes := a.length_clusterSizes
  have hranks := a.length_clusterRanks
  have hindex := a.length_memberClusterIndex
  have hlocal := a.length_localRanks
  rw [a.toInt_clusterCount, a.toInt_size]
  generalize hn : (a.coordinators.length : Int) = n
  generalize hk : (a.members.length : Int) = k
  have hcopy : ∀ (offset len : Int) (before : List UInt32) (row : List Int32),
      before ++ Server.wordsOf row <+: a.words → offset = before.length → len = row.length →
      copyIntArray o (bytesOf (Server.wordsOf xs ++ a.words)) xs.length offset len =
        some (Server.wordsOf row) :=
    fun _ _ _ row hws hoffset hlen => copyIntArray_row xs row hws hoffset hlen
  have hcoordinators := hcopy 0 n [] a.coordinators
    (by simp [Server.Arrays.words]) rfl hn.symm
  have hclusterSizes := hcopy n n (Server.wordsOf a.coordinators) a.clusterSizes
    (by simp [Server.Arrays.words]) (by simp [hn]) (by rw [hsizes, hn])
  have hclusterRanks := hcopy (2 * n) n
    (Server.wordsOf a.coordinators ++ Server.wordsOf a.clusterSizes) a.clusterRanks
    (by simp [Server.Arrays.words]) (by simp; omega) (by rw [hranks, hn])
  have hmembers := hcopy (3 * n) k
    (Server.wordsOf a.coordinators ++ Server.wordsOf a.clusterSizes ++
      Server.wordsOf a.clusterRanks) a.members
    (by simp [Server.Arrays.words]) (by simp; omega) hk.symm
  have hmemberClusterIndex := hcopy (3 * n + k) k
    (Server.wordsOf a.coordinators ++ Server.wordsOf a.clusterSizes ++
      Server.wordsOf a.clusterRanks ++ Server.wordsOf a.members) a.memberClusterIndex
    (by simp [Server.Arrays.words]) (by simp; omega) (by rw [hindex, hk])
  have hlocalRanks := hcopy (3 * n + 2 * k) k
    (Server.wordsOf a.coordinators ++ Server.wordsOf a.clusterSizes ++
      Server.wordsOf a.clusterRanks ++ Server.wordsOf a.members ++
      Server.wordsOf a.memberClusterIndex) a.localRanks
    (by simp [Server.Arrays.words]) (by simp; omega) (by rw [hlocal, hk])
  rw [copyReplyArrays, hcoordinators, hclusterSizes, hclusterRanks, hmembers,
    hmemberClusterIndex, hlocalRanks]
  by_cases hpos : k > 0
  · refine ⟨_, if_pos hpos, ?_⟩
    constructor <;> exact contents_some_wordsOf _
  · have hempty : ∀ row : List Int32, row.length = a.members.length → contents none = row := by
      intro row hrow
      exact (List.length_eq_zero_iff.mp (by omega)).symm
    refine ⟨_, if_neg hpos, ?_⟩
    constructor
    · exact contents_some_wordsOf _
    · exact contents_some_wordsOf _
    · exact contents_some_wordsOf _
    · exact hempty _ rfl
    · exact hempty _ hindex
    · exact hempty _ hlocal

/-- The length that a full reply with the given number of scalar fields
announces is an `int` below `2 ^ 31` or another number. -/
theorem announced_iff (fields : Nat) (a : Server.Arrays) :
    ((4 * (4 + fields + a.words.length) : Nat) : Int) =
        (4 * 4 + (Int32.ofNat fields * 4 + a.clusterCount * 4 * 3 + a.size * 4 * 3)).toInt ↔
      4 * (4 + fields + a.words.length) < 2 ^ 31 := by
  rw [a.length_words]
  generalize hn : a.coordinators.length = n
  generalize hk : a.members.length = k
  have hlength : 4 * 4 + (Int32.ofNat fields * 4 + a.clusterCount * 4 * 3 + a.size * 4 * 3) =
      Int32.ofNat (4 * (4 + fields + (3 * n + 3 * k))) := by
    have harrange : 4 * (4 + fields + (3 * n + 3 * k)) =
        4 * 4 + (fields * 4 + n * 4 * 3 + k * 4 * 3) := by omega
    rw [harrange, Server.Arrays.clusterCount, Server.Arrays.size, hn, hk]
    simp only [Int32.ofNat_add, Int32.ofNat_mul]
    rfl
  rw [hlength, Int32.toInt_ofNat']
  generalize 4 * (4 + fields + (3 * n + 3 * k)) = total
  have hsize : Int32.size = 2 ^ 32 := rfl
  rw [Int.bmod_def, hsize]
  split <;> omega

namespace Server.BuiltReply

/-- The reply that is built makes the round trip. -/
def RoundTrips (o : ByteOrder) : BuiltReply → Prop
  | split destination newComm rank color key flags arrays =>
    (SplitReply.full destination newComm rank color key flags arrays).RoundTrips o
  | noCommunicator destination => (SplitReply.simplified destination).RoundTrips o
  | group destination newComm rank flags arrays =>
    (GroupReply.full destination newComm rank flags arrays).RoundTrips o
  | outsider destination overlap => (GroupReply.outsider destination overlap).RoundTrips o

/-- The length of the reply in bytes is an `int`. -/
def Fits : BuiltReply → Prop
  | split _ _ _ _ _ _ a => 44 + 12 * (a.coordinators.length + a.members.length) < 2 ^ 31
  | group _ _ _ _ a => 40 + 12 * (a.coordinators.length + a.members.length) < 2 ^ 31
  | _ => True

end Server.BuiltReply

/-- What the client makes of a split reply. -/
theorem splitReceive_bytesOf (r : Server.SplitReply) (ws : List UInt32)
    (hopcode : r.opcode = Server.opcodeSplitReply) :
    messagingCommSplitReceive o (bytesOf (Server.wordsOf r.scalars ++ ws)) =
      (copyReplyArrays o (bytesOf (Server.wordsOf r.scalars ++ ws)) r.scalars.length
        r.clusterCount.toInt r.size.toInt).map fun arrays =>
          ⟨r.newComm, r.rank, r.size, r.color, r.key, r.clusterCount, r.flags, arrays⟩ := by
  have hint : ∀ k < 11, intAt o (bytesOf (Server.wordsOf r.scalars ++ ws)) k = r.scalars[k]? :=
    fun k hk => intAt_bytesOf r.scalars ws hk
  have hzero : r.scalars[0]? = some 52 := congrArg some hopcode
  rw [messagingCommSplitReceive, hint 0 (by decide), hint 4 (by decide), hint 5 (by decide),
    hint 6 (by decide), hint 7 (by decide), hint 8 (by decide), hint 9 (by decide),
    hint 10 (by decide), hzero, Option.map_eq_bind]
  rfl

/-- What the client makes of a group reply. -/
theorem createReceive_bytesOf (r : Server.GroupReply) (ws : List UInt32)
    (hopcode : r.opcode = Server.opcodeGroupReply) :
    messagingCommCreateReceive o (bytesOf (Server.wordsOf r.scalars ++ ws)) =
      (if r.type = Server.GroupType.active.value then
        copyReplyArrays o (bytesOf (Server.wordsOf r.scalars ++ ws)) r.scalars.length
          r.clusterCount.toInt r.size.toInt
      else
        some ReplyArrays.null).map fun arrays =>
          ⟨r.newComm, r.rank, r.size, r.type, r.clusterCount, r.flags, arrays⟩ := by
  have hint : ∀ k < 10, intAt o (bytesOf (Server.wordsOf r.scalars ++ ws)) k = r.scalars[k]? :=
    fun k hk => intAt_bytesOf r.scalars ws hk
  have hzero : r.scalars[0]? = some 54 := congrArg some hopcode
  rw [messagingCommCreateReceive, hint 0 (by decide), hint 4 (by decide), hint 5 (by decide),
    hint 6 (by decide), hint 7 (by decide), hint 8 (by decide), hint 9 (by decide), hzero,
    Option.map_eq_bind]
  by_cases htype : r.type = Server.GroupType.active.value
  · rw [if_pos htype]
    exact if_pos htype
  · rw [if_neg htype]
    exact if_neg htype

/-- A full split reply makes the round trip when its length is an `int`. -/
theorem roundTrips_split (destination newComm rank color key flags : Int32)
    (a : Server.Arrays) :
    (Server.SplitReply.full destination newComm rank color key flags a).RoundTrips o ↔
      44 + 12 * (a.coordinators.length + a.members.length) < 2 ^ 31 := by
  generalize hr : Server.SplitReply.full destination newComm rank color key flags a = r
  have hwrite := Server.SplitReply.write_full destination newComm rank color key flags a
  have hannounced := announced_iff 7 a
  rw [hr] at hwrite
  have hlength : (bytesOf (Server.wordsOf r.scalars ++ a.words)).length =
      4 * (4 + 7 + a.words.length) := by
    rw [length_bytesOf, List.length_append, Server.length_wordsOf]
    rfl
  have htotal : 4 * (4 + 7 + a.words.length) =
      44 + 12 * (a.coordinators.length + a.members.length) := by
    rw [a.length_words]
    omega
  rw [← htotal]
  constructor
  · intro h
    obtain ⟨bytes, c, hbytes, hlen, _⟩ := h
    rw [hwrite, Option.some.injEq] at hbytes
    rw [← hbytes, hlength, ← hr] at hlen
    exact hannounced.mp hlen
  · intro hfits
    obtain ⟨arrays, hcopy, hholds⟩ := copyReplyArrays_words (o := o) r.scalars a
    have hreceive := splitReceive_bytesOf (o := o) r a.words (by rw [← hr]; rfl)
    subst hr
    refine ⟨_, _, hwrite, ?_, hreceive.trans (congrArg _ hcopy), ?_⟩
    · rw [hlength]
      exact hannounced.mpr hfits
    · exact ⟨rfl, rfl, rfl, rfl, rfl, rfl, rfl, hholds⟩

/-- A full group reply makes the round trip when its length is an `int`. -/
theorem roundTrips_group (destination newComm rank flags : Int32) (a : Server.Arrays) :
    (Server.GroupReply.full destination newComm rank flags a).RoundTrips o ↔
      40 + 12 * (a.coordinators.length + a.members.length) < 2 ^ 31 := by
  generalize hr : Server.GroupReply.full destination newComm rank flags a = r
  have hwrite := Server.GroupReply.write_full destination newComm rank flags a
  have hannounced := announced_iff 6 a
  rw [hr] at hwrite
  have hlength : (bytesOf (Server.wordsOf r.scalars ++ a.words)).length =
      4 * (4 + 6 + a.words.length) := by
    rw [length_bytesOf, List.length_append, Server.length_wordsOf]
    rfl
  have htotal : 4 * (4 + 6 + a.words.length) =
      40 + 12 * (a.coordinators.length + a.members.length) := by
    rw [a.length_words]
    omega
  rw [← htotal]
  constructor
  · intro h
    obtain ⟨bytes, c, hbytes, hlen, _⟩ := h
    rw [hwrite, Option.some.injEq] at hbytes
    rw [← hbytes, hlength, ← hr] at hlen
    exact hannounced.mp hlen
  · intro hfits
    obtain ⟨arrays, hcopy, hholds⟩ := copyReplyArrays_words (o := o) r.scalars a
    have hreceive := createReceive_bytesOf (o := o) r a.words (by rw [← hr]; rfl)
    subst hr
    refine ⟨_, _, hwrite, ?_, hreceive.trans (congrArg _ ((if_pos rfl).trans hcopy)), ?_⟩
    · rw [hlength]
      exact hannounced.mpr hfits
    · exact ⟨rfl, rfl, rfl, rfl, rfl, rfl, hholds⟩

/-- The simplified split reply makes the round trip. -/
theorem roundTrips_noCommunicator (destination : Int32) :
    (Server.SplitReply.simplified destination).RoundTrips o := by
  have hwrite := Server.SplitReply.write_simplified destination
  have hreceive := splitReceive_bytesOf (o := o) (Server.SplitReply.simplified destination) [] rfl
  rw [List.append_nil] at hreceive
  exact ⟨_, _, hwrite, rfl, hreceive.trans rfl, rfl, rfl, rfl, rfl, rfl, rfl, rfl,
    ⟨rfl, rfl, rfl, rfl, rfl, rfl⟩⟩

/-- The group reply to a process outside the group makes the round trip. -/
theorem roundTrips_outsider (destination : Int32) (overlap : Bool) :
    (Server.GroupReply.outsider destination overlap).RoundTrips o := by
  have hwrite := Server.GroupReply.write_outsider destination overlap
  have hreceive :=
    createReceive_bytesOf (o := o) (Server.GroupReply.outsider destination overlap) [] rfl
  have htype := Server.GroupReply.type_outsider destination overlap
  rw [List.append_nil, if_neg htype] at hreceive
  exact ⟨_, _, hwrite, rfl, hreceive.trans rfl, rfl, rfl, rfl, rfl, rfl, rfl,
    ⟨rfl, rfl, rfl, rfl, rfl, rfl⟩⟩

/-- **The round trip of the replies.**  It depends on the length alone. -/
theorem roundTrips_iff (o : ByteOrder) (r : Server.BuiltReply) : r.RoundTrips o ↔ r.Fits := by
  cases r with
  | split destination newComm rank color key flags arrays =>
      exact roundTrips_split destination newComm rank color key flags arrays
  | noCommunicator destination => exact iff_of_true (roundTrips_noCommunicator destination) trivial
  | group destination newComm rank flags arrays =>
      exact roundTrips_group destination newComm rank flags arrays
  | outsider destination overlap =>
      exact iff_of_true (roundTrips_outsider destination overlap) trivial

/-- Eleven clusters of the greatest size that the server accepts. -/
def Server.Config.eleven : Config where
  applicationSizes := List.replicate 11 (maxProcessesPerCluster - 1)
  numberOfGatewaysPerCluster := 1
  one_lt_clusters := by decide
  clusters_lt := by decide
  gateways_pos := Nat.one_pos
  size_pos := by decide
  size_le := by decide

/-- The reply to the first of very many processes that split off together. -/
theorem not_roundTrips_ofMembers {members : List Pid} (h : members.length < 2 ^ 31)
    (hmany : 178956967 ≤ members.length) :
    ¬ (Server.BuiltReply.split 0 3 0 0 0 3 (.ofMembers members h)).RoundTrips o := by
  intro hreply
  have hfits := (roundTrips_split _ _ _ _ _ _ _).mp hreply
  have hlength : (Server.Arrays.ofMembers members h).members.length = members.length :=
    List.length_map _
  omega

theorem Server.Config.length_eleven : (worldMembers .eleven).length = 11 * 16777215 := by
  rw [length_worldMembers]
  rfl

/-- The reply to the first process of these clusters, when all of them split
off together, does not make the round trip. -/
theorem not_roundTrips_eleven : ¬ ∀ o (r : Server.BuiltReply), r.RoundTrips o := by
  intro h
  have hlength := Server.Config.length_eleven
  exact not_roundTrips_ofMembers (by omega) (by omega)
    (h .little (.split 0 3 0 0 0 3 (.ofMembers (Server.worldMembers .eleven) (by omega))))

end EsalsaMpi
