import EsalsaMpi.Backend.Broadcast
import EsalsaMpi.Backend.Datatype
import EsalsaMpi.Backend.Receive
import EsalsaMpi.Library.Memory
import EsalsaMpi.Library.ProcessNetwork

/-!
# The program of `EMPI_Allgatherv`

On a communicator with members in several clusters, the coordinator of each
cluster gathers the data of its cluster in a buffer, the coordinators exchange
these parts, and each broadcasts the whole to its cluster.  Every member then
copies the blocks from the buffer to where the caller wants them.

The buffer has one segment for each cluster, whose length and place follow from
`member_cluster_index` (`getCountSums`).  What `malloc` yields is memory with
any content.  A read or a write outside of an array, a sum beyond the `int`s, and
a call that ends in an error, is failure.
-/

namespace EsalsaMpi

open ProcessNetwork

/-- What one process sends to another: elements over the library of the cluster,
or a message over the wide area. -/
inductive Packet (α : Type) where
  | elements (xs : List α)
  | wideArea (m : DataMessage)

/-- Which traffic a message belongs to: `PMPI_Send` to the coordinator, the
messages of `messaging_bcast`, or the inside of `PMPI_Bcast`. -/
inductive Route where
  | gather
  | exchange
  | bcast
deriving DecidableEq, Repr

/-- The messages of one route from one rank to another.  The receives name both
source and tag, so those of one link are received in the order in which they
were sent. -/
structure Link where
  route : Route
  source : Nat
  dest : Nat
deriving DecidableEq, Repr

/-- A process that takes part in the collective call. -/
abbrev Member (α β : Type) := Proc Link (Packet α) β

/-- The round for member `i` of the loop in `get_count_sums`.  The sum of a cluster is an `int`
if that of all is. -/
def addCount (c : Communicator) (recvcounts : Nat → Nat) (s : List Nat × Nat) (i : Nat) :
    Option (List Nat × Nat) :=
  (c.tables.memberClusterIndex[i]?).bind fun k =>
    if k < s.1.length ∧ s.2 + recvcounts i < 2 ^ 31 then
      some (s.1.modify k (· + recvcounts i), s.2 + recvcounts i)
    else
      none

/-- The loop of `get_count_sums` over the members: the elements of each cluster,
and of all. -/
def sumCounts (c : Communicator) (recvcounts : Nat → Nat) : Option (List Nat × Nat) :=
  (List.range c.globalSize).foldlM (addCount c recvcounts) (List.replicate c.clusterCount 0, 0)

/-- `get_count_sums`: `sums`, `offsets` and the result. -/
def getCountSums (c : Communicator) (recvcounts : Nat → Nat) :
    Option (List Nat × List Nat × Nat) :=
  (sumCounts c recvcounts).map fun s =>
    (s.1, (s.1.scanl (· + ·) 0).take c.clusterCount, s.2)

section Member

variable {α : Type} (pk : Packing α) (type : Int) (t : ElementType α) (clusterCount : Nat)
  (p : Process) (c : Communicator) (recvcounts : Nat → Nat)

/-- `rank_is_local`. -/
def rankIsLocal (i : Nat) : Bool := c.getClusterRank i == some p.clusterRank

/-- `PMPI_Recv` from the member `i`. -/
def gatherReceive (i count : Nat) : Member α (List α) :=
  .recv ⟨.gather, i, c.globalRank⟩ fun
    | .elements xs => if xs.length ≤ count then .done xs else .fail
    | .wideArea _ => .fail

/-- The coordinator takes in the data of the member `i`. -/
def gatherFrom (sum : Nat) (sendbuf : List α) (s : Memory α × Nat) (i : Nat) :
    Member α (Memory α × Nat) :=
  if rankIsLocal p c i then do
    let xs ←
      if i = c.globalRank then
        if recvcounts i ≤ sendbuf.length then .done (sendbuf.take (recvcounts i)) else .fail
      else
        gatherReceive c i (recvcounts i)
    if s.2 + recvcounts i ≤ sum then
      .done (s.1.write s.2 xs, s.2 + recvcounts i)
    else
      .fail
  else
    .done s

/-- `messaging_bcast`, as a process. -/
def bcastTo (buf : List α) : Member α Unit :=
  let b := messagingBcast pk clusterCount p buf c
  b.sent.foldr
    (fun m next => .send ⟨.exchange, c.globalRank, m.dest.toNat⟩ (.wideArea m) next)
    (if b.success then .done () else .fail)

/-- `messaging_bcast_receive` into memory that holds `buf`. -/
def bcastReceive (buf : List α) (root : Nat) : Member α (List α) :=
  .recv ⟨.exchange, root, c.globalRank⟩ fun
    | .wideArea m =>
      if matchMessage m c.handle root bcastTag then
        .ofOption ((unpackMessage pk buf buf.length type m).map (·.1))
      else
        .fail
    | .elements _ => .fail

/-- The coordinators exchange the segment `i`. -/
def exchangeSegment (sums offsets : List Nat) (mem : Memory α) (i : Nat) :
    Member α (Memory α) := do
  let coordinator ← .ofOption c.tables.coordinators[i]?
  let offset ← .ofOption offsets[i]?
  let count ← .ofOption sums[i]?
  if coordinator = c.globalRank then
    bcastTo pk clusterCount p c (mem.read offset count) >>= fun _ => .done mem
  else
    bcastReceive pk type c (mem.read offset count) coordinator >>= fun xs =>
      .done (mem.write offset xs)

/-- `PMPI_Bcast` of the buffer from the coordinator of the cluster. -/
def bcastLocally (coordinator sum : Nat) (mem : Memory α) : Member α (Memory α) :=
  if c.globalRank = coordinator then
    (List.range c.globalSize).foldlM
      (fun mem i =>
        if rankIsLocal p c i ∧ i ≠ c.globalRank then
          .send ⟨.bcast, c.globalRank, i⟩ (.elements (mem.read 0 sum)) (.done mem)
        else
          .done mem)
      mem
  else
    .recv ⟨.bcast, coordinator, c.globalRank⟩ fun
      | .elements xs => .done (mem.write 0 xs)
      | .wideArea _ => .fail

/-- The copy of block `i` to where the caller wants it. -/
def copyBlock (sum : Nat) (displs : Nat → Nat) (buffer : Memory α)
    (s : Memory α × List Nat) (i : Nat) : Option (Memory α × List Nat) :=
  (c.tables.memberClusterIndex[i]?).bind fun k =>
    (s.2[k]?).bind fun offset =>
      if offset + recvcounts i ≤ sum then
        some (s.1.write (displs i) (buffer.read offset (recvcounts i)),
          s.2.modify k (· + recvcounts i))
      else
        none

/-- The coordinator's part of `EMPI_Allgatherv`, up to the local broadcast. -/
def coordinate (sums offsets : List Nat) (sum : Nat) (sendbuf : List α)
    (fresh : Memory α) : Member α (Memory α) := do
  let offset ← .ofOption ((c.tables.memberClusterIndex[c.globalRank]?).bind (offsets[·]?))
  let gathered ← (List.range c.globalSize).foldlM (gatherFrom p c recvcounts sum sendbuf)
    (fresh, offset)
  (List.range c.clusterCount).foldlM (exchangeSegment pk type clusterCount p c sums offsets)
    gathered.1

/-- `EMPI_Allgatherv` on a communicator that is not local, in a run with
`clusterCount` clusters; `fresh` is what `malloc` yields, and the result is what
is in the receive buffer after the call.  Every member writes all elements to its
buffer, and copies the blocks from there as bytes. -/
def allgatherv (sendbuf : List α) (recvbuf fresh : Memory α) (displs : Nat → Nat) :
    Member α (Memory α) := do
  let (sums, offsets, sum) ← .ofOption (getCountSums c recvcounts)
  let fresh ← .ofOption (if t.Holds sum then some fresh else none)
  let coordinator ← .ofOption c.myCoordinator
  let buffer ←
    if c.globalRank = coordinator then
      coordinate t.pk t.handle clusterCount p c recvcounts sums offsets sum sendbuf fresh
    else
      .send ⟨.gather, c.globalRank, coordinator⟩ (.elements sendbuf) (.done fresh)
  let buffer ← bcastLocally p c coordinator sum buffer
  let received ← .ofOption ((List.range c.globalSize).foldlM
    (copyBlock c recvcounts sum displs buffer) (recvbuf, offsets))
  .done received.1

end Member

end EsalsaMpi
