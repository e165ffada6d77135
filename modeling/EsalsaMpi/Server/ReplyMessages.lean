import EsalsaMpi.Library.Wire
import EsalsaMpi.Server.Replies

/-!
# Replies as messages

The classes `Message`, `SplitReply` and `GroupReply`: the fields that their
constructors fill and the bytes that `write` puts into the output stream of a
cluster.  A `null` array is an empty one here.  The arithmetic on lengths is
that of `int`.

A communicator of the server has its arrays in proportion (`Arrays`), so that
`write` does not leave them; `BuiltReply` lists the four calls of a
constructor in `Communicator.java`.
-/

namespace EsalsaMpi

open Wire FirstOccurrence

namespace Server

/-- `Message`. -/
structure Message where
  opcode : Int32
  source : Int32
  destination : Int32
  length : Int32
deriving DecidableEq

/-- The constructor of `Message` for a payload of the given size. -/
def Message.new (opcode source destination payloadSize : Int32) : Message :=
  ⟨opcode, source, destination, 4 * 4 + payloadSize⟩

/-- `SplitReply`. -/
structure SplitReply extends Message where
  newComm : Int32
  rank : Int32
  size : Int32
  color : Int32
  key : Int32
  clusterCount : Int32
  flags : Int32
  coordinators : List Int32
  clusterSizes : List Int32
  members : List Int32
  clusterRanks : List Int32
  memberClusterIndex : List Int32
  localRanks : List Int32
deriving DecidableEq

/-- `GroupReply`. -/
structure GroupReply extends Message where
  newComm : Int32
  rank : Int32
  size : Int32
  clusterCount : Int32
  flags : Int32
  coordinators : List Int32
  clusterSizes : List Int32
  members : List Int32
  clusterRanks : List Int32
  memberClusterIndex : List Int32
  localRanks : List Int32
  type : Int32
deriving DecidableEq

/-- `Protocol.OPCODE_SPLIT_REPLY` and `Protocol.OPCODE_GROUP_REPLY`. -/
def opcodeSplitReply : Int32 := 52

def opcodeGroupReply : Int32 := 54

/-- The constants of `GroupReply`. -/
def GroupType.value : GroupType → Int32
  | .active => 0
  | .seperatist => 1
  | .idle => 2

/-- The words of a row of integers. -/
def wordsOf (xs : List Int32) : List UInt32 := xs.map Int32.toUInt32

@[simp] theorem length_wordsOf (xs : List Int32) : (wordsOf xs).length = xs.length :=
  List.length_map _

/-- `writeInt` for a row of integers. -/
def writeInts (xs : List Int32) : List UInt8 := bytesOf (wordsOf xs)

/-- The loop that writes the first `n` entries of an array; it throws behind
the end of the array. -/
def writeArray (n : Int32) (xs : List Int32) : Option (List UInt8) :=
  ((List.range n.toInt.toNat).mapM fun i => xs[i]?).map writeInts

/-- `Message.write`. -/
def Message.write (m : Message) : List UInt8 :=
  writeInts [m.opcode, m.source, m.destination, m.length]

/-- `SplitReply.write`, `none` when it throws. -/
def SplitReply.write (r : SplitReply) : Option (List UInt8) := do
  let header := r.toMessage.write
  let fields := writeInts [r.newComm, r.rank, r.size, r.color, r.key, r.clusterCount, r.flags]
  let coordinators ← writeArray r.clusterCount r.coordinators
  let clusterSizes ← writeArray r.clusterCount r.clusterSizes
  let clusterRanks ← writeArray r.clusterCount r.clusterRanks
  let members ← writeArray r.size r.members
  let memberClusterIndex ← writeArray r.size r.memberClusterIndex
  let localRanks ← writeArray r.size r.localRanks
  return header ++ fields ++ coordinators ++ clusterSizes ++ clusterRanks ++ members ++
    memberClusterIndex ++ localRanks

/-- `GroupReply.write`, `none` when it throws. -/
def GroupReply.write (r : GroupReply) : Option (List UInt8) := do
  let header := r.toMessage.write
  let fields := writeInts [r.newComm, r.rank, r.size, r.type, r.clusterCount, r.flags]
  let coordinators ← writeArray r.clusterCount r.coordinators
  let clusterSizes ← writeArray r.clusterCount r.clusterSizes
  let clusterRanks ← writeArray r.clusterCount r.clusterRanks
  let members ←
    if r.type = GroupType.active.value then do
      let members ← writeArray r.size r.members
      let memberClusterIndex ← writeArray r.size r.memberClusterIndex
      let localRanks ← writeArray r.size r.localRanks
      pure (members ++ memberClusterIndex ++ localRanks)
    else
      pure []
  return header ++ fields ++ coordinators ++ clusterSizes ++ clusterRanks ++ members

/-- The arrays of a communicator: three with an entry for every cluster and
three with an entry for every member.  The length of an array is an `int`. -/
structure Arrays where
  coordinators : List Int32
  clusterSizes : List Int32
  members : List Int32
  clusterRanks : List Int32
  memberClusterIndex : List Int32
  localRanks : List Int32
  length_clusterSizes : clusterSizes.length = coordinators.length
  length_clusterRanks : clusterRanks.length = coordinators.length
  length_memberClusterIndex : memberClusterIndex.length = members.length
  length_localRanks : localRanks.length = members.length
  coordinators_lt : coordinators.length < 2 ^ 31
  members_lt : members.length < 2 ^ 31

namespace Arrays

/-- `coordinators.length`. -/
def clusterCount (a : Arrays) : Int32 := Int32.ofNat a.coordinators.length

/-- `members.length`. -/
def size (a : Arrays) : Int32 := Int32.ofNat a.members.length

/-- The arrays in the order in which they are written. -/
def words (a : Arrays) : List UInt32 :=
  wordsOf a.coordinators ++ wordsOf a.clusterSizes ++ wordsOf a.clusterRanks ++
    wordsOf a.members ++ wordsOf a.memberClusterIndex ++ wordsOf a.localRanks

theorem length_words (a : Arrays) :
    a.words.length = 3 * a.coordinators.length + 3 * a.members.length := by
  simp only [words, List.length_append, length_wordsOf, a.length_clusterSizes,
    a.length_clusterRanks, a.length_memberClusterIndex, a.length_localRanks]
  omega

@[simp] theorem toInt_clusterCount (a : Arrays) :
    a.clusterCount.toInt = a.coordinators.length :=
  Int32.toInt_ofNat_of_lt a.coordinators_lt

@[simp] theorem toInt_size (a : Arrays) : a.size.toInt = a.members.length :=
  Int32.toInt_ofNat_of_lt a.members_lt

end Arrays

/-- The integers of a table. -/
def intsOf (xs : List Nat) : List Int32 := xs.map Int32.ofNat

theorem length_coordinators_lt {members : List Pid} (h : members.length < 2 ^ 31) :
    (intsOf (tablesSpec members).coordinators).length < 2 ^ 31 := by
  have := length_eraseDups_le (clustersOf members)
  simp only [intsOf, tablesSpec, List.length_map]
  rw [length_clustersOf] at this
  omega

/-- The arrays of a communicator with the given members. -/
def Arrays.ofMembers (members : List Pid) (h : members.length < 2 ^ 31) : Arrays where
  coordinators := intsOf (tablesSpec members).coordinators
  clusterSizes := intsOf (tablesSpec members).clusterSizes
  members := members.map UInt32.toInt32
  clusterRanks := intsOf (tablesSpec members).clusterRanks
  memberClusterIndex := intsOf (tablesSpec members).memberClusterIndex
  localRanks := intsOf (tablesSpec members).localRanks
  length_clusterSizes := by simp [intsOf, tablesSpec]
  length_clusterRanks := by simp [intsOf, tablesSpec]
  length_memberClusterIndex := by simp [intsOf, tablesSpec]
  length_localRanks := by simp [intsOf, tablesSpec]
  coordinators_lt := length_coordinators_lt h
  members_lt := by simpa using h

/-- The simplified constructor of `SplitReply`. -/
def SplitReply.simplified (destination : Int32) : SplitReply where
  toMessage := Message.new opcodeSplitReply 0xFFFFFFFF destination (7 * 4)
  newComm := -1
  rank := 0
  size := 0
  color := -1
  key := 0
  clusterCount := 0
  flags := 0
  coordinators := []
  clusterSizes := []
  members := []
  clusterRanks := []
  memberClusterIndex := []
  localRanks := []

/-- The constructor of `SplitReply`, for the arrays of a communicator. -/
def SplitReply.full (destination newComm rank color key flags : Int32) (a : Arrays) :
    SplitReply where
  toMessage := Message.new opcodeSplitReply 0xFFFFFFFF destination
    (7 * 4 + a.clusterCount * 4 * 3 + a.size * 4 * 3)
  newComm := newComm
  rank := rank
  size := a.size
  color := color
  key := key
  clusterCount := a.clusterCount
  flags := flags
  coordinators := a.coordinators
  clusterSizes := a.clusterSizes
  members := a.members
  clusterRanks := a.clusterRanks
  memberClusterIndex := a.memberClusterIndex
  localRanks := a.localRanks

/-- The constructor of `GroupReply` for a process outside the group. -/
def GroupReply.outsider (destination : Int32) (overlap : Bool) : GroupReply where
  toMessage := Message.new opcodeGroupReply 0xFFFFFFFF destination (6 * 4)
  newComm := -1
  rank := -1
  size := -1
  flags := -1
  clusterCount := -1
  members := []
  clusterSizes := []
  coordinators := []
  clusterRanks := []
  memberClusterIndex := []
  localRanks := []
  type := (if overlap then GroupType.seperatist else GroupType.idle).value

/-- The constructor of `GroupReply`, for the arrays of a communicator. -/
def GroupReply.full (destination newComm rank flags : Int32) (a : Arrays) : GroupReply where
  toMessage := Message.new opcodeGroupReply 0xFFFFFFFF destination
    (6 * 4 + a.clusterCount * 4 * 3 + a.size * 4 * 3)
  newComm := newComm
  rank := rank
  size := a.size
  clusterCount := a.clusterCount
  flags := flags
  coordinators := a.coordinators
  clusterSizes := a.clusterSizes
  members := a.members
  clusterRanks := a.clusterRanks
  memberClusterIndex := a.memberClusterIndex
  localRanks := a.localRanks
  type := GroupType.active.value

/-- A call of a constructor of `SplitReply` or `GroupReply` by the server. -/
inductive BuiltReply where
  | split (destination newComm rank color key flags : Int32) (arrays : Arrays)
  | noCommunicator (destination : Int32)
  | group (destination newComm rank flags : Int32) (arrays : Arrays)
  | outsider (destination : Int32) (overlap : Bool)

/-- A whole array. -/
theorem writeArray_self {n : Int32} {xs : List Int32} (h : n.toInt = xs.length) :
    writeArray n xs = some (writeInts xs) := by
  have hread : (List.range xs.length).mapM (fun i => xs[i]?) = some xs :=
    mapM_range_eq_some fun _ _ => rfl
  rw [writeArray, h, Int.toNat_natCast, hread, Option.map_some]

/-- No entry of an array. -/
theorem writeArray_of_nonpos {n : Int32} (xs : List Int32) (h : n.toInt ≤ 0) :
    writeArray n xs = some [] := by
  rw [writeArray, Int.toNat_of_nonpos h]
  rfl

/-- The scalar fields of a split reply, header first. -/
def SplitReply.scalars (r : SplitReply) : List Int32 :=
  [r.opcode, r.source, r.destination, r.length, r.newComm, r.rank, r.size, r.color, r.key,
    r.clusterCount, r.flags]

/-- The scalar fields of a group reply, header first. -/
def GroupReply.scalars (r : GroupReply) : List Int32 :=
  [r.opcode, r.source, r.destination, r.length, r.newComm, r.rank, r.size, r.type,
    r.clusterCount, r.flags]

/-- The bytes of a full split reply. -/
theorem SplitReply.write_full (destination newComm rank color key flags : Int32) (a : Arrays) :
    (full destination newComm rank color key flags a).write =
      some (bytesOf (wordsOf (full destination newComm rank color key flags a).scalars ++
        a.words)) := by
  have hcount : ∀ xs : List Int32, xs.length = a.coordinators.length →
      writeArray a.clusterCount xs = some (writeInts xs) := fun xs h =>
    writeArray_self (by rw [a.toInt_clusterCount, h])
  have hsize : ∀ xs : List Int32, xs.length = a.members.length →
      writeArray a.size xs = some (writeInts xs) := fun xs h =>
    writeArray_self (by rw [a.toInt_size, h])
  simp only [write, full, hcount _ rfl, hcount _ a.length_clusterSizes,
    hcount _ a.length_clusterRanks, hsize _ rfl, hsize _ a.length_memberClusterIndex,
    hsize _ a.length_localRanks]
  simp [Message.write, writeInts, Arrays.words, scalars, wordsOf, bytesOf_append, bytesOf_cons]

/-- The bytes of a full group reply. -/
theorem GroupReply.write_full (destination newComm rank flags : Int32) (a : Arrays) :
    (full destination newComm rank flags a).write =
      some (bytesOf (wordsOf (full destination newComm rank flags a).scalars ++ a.words)) := by
  have hcount : ∀ xs : List Int32, xs.length = a.coordinators.length →
      writeArray a.clusterCount xs = some (writeInts xs) := fun xs h =>
    writeArray_self (by rw [a.toInt_clusterCount, h])
  have hsize : ∀ xs : List Int32, xs.length = a.members.length →
      writeArray a.size xs = some (writeInts xs) := fun xs h =>
    writeArray_self (by rw [a.toInt_size, h])
  simp only [write, full, hcount _ rfl, hcount _ a.length_clusterSizes,
    hcount _ a.length_clusterRanks, hsize _ rfl, hsize _ a.length_memberClusterIndex,
    hsize _ a.length_localRanks, if_true]
  simp [Message.write, writeInts, Arrays.words, scalars, wordsOf, bytesOf_append, bytesOf_cons]

/-- The bytes of a simplified split reply. -/
theorem SplitReply.write_simplified (destination : Int32) :
    (simplified destination).write =
      some (bytesOf (wordsOf (simplified destination).scalars)) := by
  have hnone : ∀ xs : List Int32, writeArray 0 xs = some [] := fun xs =>
    writeArray_of_nonpos xs (by decide)
  simp only [write, simplified, hnone]
  simp [Message.write, writeInts, scalars, wordsOf, bytesOf_cons]

/-- A reply to a process outside the group is not an active one. -/
theorem GroupReply.type_outsider (destination : Int32) (overlap : Bool) :
    (outsider destination overlap).type ≠ GroupType.active.value := by
  have hvalue : ∀ b : Bool, (if b then GroupType.seperatist else .idle).value ≠
      GroupType.active.value := by decide
  exact hvalue overlap

/-- The bytes of a group reply to a process outside the group. -/
theorem GroupReply.write_outsider (destination : Int32) (overlap : Bool) :
    (outsider destination overlap).write =
      some (bytesOf (wordsOf (outsider destination overlap).scalars)) := by
  have hnone : ∀ xs : List Int32, writeArray (-1) xs = some [] := fun xs =>
    writeArray_of_nonpos xs (by decide)
  have htype := type_outsider destination overlap
  simp only [outsider] at htype
  simp only [write, outsider, hnone, if_neg htype]
  simp [Message.write, writeInts, scalars, wordsOf, bytesOf_cons]

end Server

end EsalsaMpi
