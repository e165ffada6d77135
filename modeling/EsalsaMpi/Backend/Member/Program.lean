import EsalsaMpi.Backend.Allgatherv.Program
import EsalsaMpi.Backend.Flags
import EsalsaMpi.Backend.Operations

/-!
# The parts of a collective call

What the members of a communicator do in a collective call: they send to each
other and receive (`do_send` and `do_recv` of `empi.c`), over the library of
their cluster or over the wide area, broadcast to the coordinators, and take
part in collective calls of the library of their cluster.

What the library does is documented behaviour.  `PMPI_Bcast` gives the buffer of
the root to all.  `PMPI_Reduce` gives the root what the library makes of all
buffers in rank order (`Library`), `PMPI_Allreduce` gives it to all, and
`PMPI_Scan` to each what it makes of the buffers up to its own.  Nobody leaves
`PMPI_Barrier` before all have entered.  The messages that the library sends for it
are no part of the source; here each process sends one to everyone who depends on
it.
-/

namespace EsalsaMpi

open ProcessNetwork

/-- Which traffic a message belongs to: the inside of a collective call of the
library, `PMPI_Send` with a tag, or the messages over the wide area with a tag. -/
inductive Carrier where
  | barrier
  | bcast
  | reduce
  | allreduce
  | scan
  | library (tag : Int)
  | wideArea (tag : Int)
deriving DecidableEq, Repr

/-- The messages of one kind from one rank to another.  A receive names the
source and the tag, so those of one lane are received in the order in which they
were sent. -/
structure Lane where
  carrier : Carrier
  source : Nat
  dest : Nat
deriving DecidableEq, Repr

/-- A process that takes part in a call. -/
abbrev Caller (α β : Type) := Proc Lane (Packet α) β

/-- What the library makes of the buffers of some processes, in rank order, with an
operation and for a datatype. -/
structure Library (α : Type) where
  reduce : Operation α → Int → List (List α) → List α

/-- The ranks of the processes of the library's communicator. -/
def Communicator.peers (c : Communicator) : List Nat := c.comm.map c.tables.members.idxOf

section Library

variable {α : Type} (c : Communicator)

/-- `PMPI_Send` to the process with rank `dest` in the library's communicator. -/
def pmpiSend (buf : List α) (dest : Nat) (tag : Int) : Caller α Unit :=
  match c.peers[dest]? with
  | some r => .send ⟨.library tag, c.globalRank, r⟩ (.elements buf) (.done ())
  | none => .fail

/-- `PMPI_Recv` into `buf`. -/
def pmpiReceive (buf : List α) (source : Nat) (tag : Int) : Caller α (List α) :=
  match c.peers[source]? with
  | some r =>
    .recv ⟨.library tag, r, c.globalRank⟩ fun
      | .elements xs => .ofOption ((pmpiRecv xs source tag buf buf.length).map (·.1))
      | .wideArea _ => .fail
  | none => .fail

/-- The other processes of the library's communicator. -/
def others : List Nat := c.peers.filter (· ≠ c.globalRank)

/-- A message to each of some processes. -/
def sendEach (carrier : Carrier) (buf : List α) (dests : List Nat) : Caller α Unit :=
  dests.foldr (fun r next => .send ⟨carrier, c.globalRank, r⟩ (.elements buf) next) (.done ())

/-- The next message from a process of the library, taken into `buf`. -/
def receiveFrom (carrier : Carrier) (source : Nat) (buf : List α) : Caller α (List α) :=
  .recv ⟨carrier, source, c.globalRank⟩ fun
    | .elements xs => if xs.length ≤ buf.length then .done (xs ++ buf.drop xs.length) else .fail
    | .wideArea _ => .fail

/-- `PMPI_Bcast`. -/
def pmpiBcast (root : Nat) (buf : List α) : Caller α (List α) :=
  if c.localRank = root then
    sendEach c .bcast buf (others c) >>= fun _ => .done buf
  else
    match c.peers[root]? with
    | some r => receiveFrom c .bcast r buf
    | none => .fail

/-- The buffers of some processes in this order, of which the own one is `buf`. -/
def collect (carrier : Carrier) (buf : List α) (sources : List Nat) : Caller α (List (List α)) :=
  sources.foldlM
    (fun bufs r =>
      if r = c.globalRank then
        .done (bufs ++ [buf])
      else
        receiveFrom c carrier r buf >>= fun xs => .done (bufs ++ [xs])) []

/-- `PMPI_Reduce`: what is in the receive buffer then, which held `recvbuf`. -/
def pmpiReduce (lib : Library α) (op : Operation α) (type : Int) (root : Nat)
    (sendbuf recvbuf : List α) : Caller α (List α) :=
  if c.localRank = root then
    collect c .reduce sendbuf c.peers >>= fun bufs => .done (lib.reduce op type bufs)
  else
    match c.peers[root]? with
    | some r => .send ⟨.reduce, c.globalRank, r⟩ (.elements sendbuf) (.done recvbuf)
    | none => .fail

/-- `PMPI_Allreduce`. -/
def pmpiAllreduce (lib : Library α) (op : Operation α) (type : Int) (sendbuf : List α) :
    Caller α (List α) := do
  sendEach c .allreduce sendbuf (others c)
  let bufs ← collect c .allreduce sendbuf c.peers
  .done (lib.reduce op type bufs)

/-- `PMPI_Scan`. -/
def pmpiScan (lib : Library α) (op : Operation α) (type : Int) (sendbuf : List α) :
    Caller α (List α) := do
  sendEach c .scan sendbuf (c.peers.filter (c.globalRank < ·))
  let bufs ← collect c .scan sendbuf (c.peers.filter (· ≤ c.globalRank))
  .done (lib.reduce op type bufs)

/-- To enter `PMPI_Barrier`. -/
def enterBarrier : Caller α Unit := sendEach c .barrier [] (others c)

/-- To leave it. -/
def leaveBarrier : Caller α Unit :=
  (others c).foldlM (fun _ r => receiveFrom c .barrier r [] >>= fun _ => .done ()) ()

end Library

section WideArea

variable {α β : Type} (pk : Packing α) (type : Int) (p : Process) (c : Communicator)

/-- A message sets out. -/
def sendWide (m : DataMessage) : Caller β Unit :=
  .send ⟨.wideArea m.tag, c.globalRank, m.dest.toNat⟩ (.wideArea m) (.done ())

/-- `messaging_send`, as a process. -/
def sendMessage (buf : List α) (dest : Nat) (tag : Int) : Caller β Unit :=
  match messagingSend pk p.pid buf dest tag c with
  | some m => sendWide c m
  | none => .fail

/-- `messaging_receive` into `buf`, as a process. -/
def receiveMessage (buf : List α) (source : Nat) (tag : Int) : Caller β (List α) :=
  .recv ⟨.wideArea tag, source, c.globalRank⟩ fun
    | .wideArea m => .ofOption ((unpackMessage pk buf buf.length type m).map (·.1))
    | .elements _ => .fail

/-- `messaging_bcast`, as a process. -/
def bcastMessages (clusterCount : Nat) (buf : List α) : Caller β Unit :=
  let b := messagingBcast pk clusterCount p buf c
  b.sent.foldr (fun m next => sendWide c m >>= fun _ => next)
    (if b.success then .done () else .fail)

namespace Empi

/-- `do_send` of `empi.c`. -/
def doSend (buf : List α) (dest : Nat) (tag : Int) : Caller α Unit :=
  if rankIsLocal p c dest then
    .ofOption (c.getLocalRank dest) >>= fun rank => pmpiSend c buf rank tag
  else
    sendMessage pk p c buf dest tag

/-- `do_recv` of `empi.c`, with `EMPI_STATUS_IGNORE` and for a given source. -/
def doRecv (buf : List α) (source : Nat) (tag : Int) : Caller α (List α) :=
  if rankIsLocal p c source then
    .ofOption (c.getLocalRank source) >>= fun rank => pmpiReceive c buf rank tag
  else
    receiveMessage pk type c buf source tag

end Empi

end WideArea

end EsalsaMpi
