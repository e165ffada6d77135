import EsalsaMpi.Backend.Collectives
import EsalsaMpi.Library.MatchQueue

/-!
# Wide-area messages

A message to another cluster is a `data_message`: the elements that the MPI
library of the sender's cluster has packed, behind a header that says where
they go and what they match.  A process keeps the messages that have arrived
before their receive in the queue of their communicator.

The functions that pack and unpack belong to the MPI library of the cluster,
so they are a parameter (`Packing`), with the laws that the callers rely on
(`Packing.Lawful`).
-/

namespace EsalsaMpi

open MatchQueue

/-- `OPCODE_DATA`. -/
def opcodeData : Nat := 50

/-- `OPCODE_COLLECTIVE_BCAST`. -/
def opcodeCollectiveBcast : Nat := 60

/-- `MAX_TAG`; the tags of the collective operations are those below it. -/
def maxTag : Int := 32768

def bcastTag : Int := maxTag - 1

def barrierTag : Int := maxTag - 2

def reduceTag : Int := maxTag - 3

def scanTag : Int := maxTag - 4

def gathervTag : Int := maxTag - 5

def scattervTag : Int := maxTag - 6

def allgathervTag : Int := maxTag - 7

def alltoallvTag : Int := maxTag - 8

/-- `MESSAGE_HEADER_SIZE`. -/
def messageHeaderSize : Nat := 4 * 4

/-- `DATA_MESSAGE_SIZE`. -/
def dataMessageSize : Nat := messageHeaderSize + 5 * 4

/-- `data_message`, the fields of its header first. -/
structure DataMessage where
  opcode : Nat
  srcPid : Pid
  dstPid : Pid
  length : Nat
  comm : Nat
  source : Int
  dest : Int
  tag : Int
  count : Nat
  payload : List UInt8
deriving DecidableEq, Repr, Inhabited

/-- `match_message`. -/
def matchMessage (m : DataMessage) (comm : Nat) (source tag : Int) : Bool :=
  comm == m.comm && (source == empiAnySource || source == m.source) &&
    (tag == empiAnyTag || tag == m.tag)

theorem matchMessage_eq_true_iff {m : DataMessage} {comm : Nat} {source tag : Int} :
    matchMessage m comm source tag = true ↔
      comm = m.comm ∧ (source = empiAnySource ∨ source = m.source) ∧
        (tag = empiAnyTag ∨ tag = m.tag) := by
  simp [matchMessage, and_assoc]

/-- `data_message_dequeue_matching`. -/
def dataMessageDequeueMatching (queue : List DataMessage) (comm : Nat) (source tag : Int) :
    Option (DataMessage × List DataMessage) :=
  takeFirst (fun m => matchMessage m comm source tag) queue

/-- `PMPI_Pack_size`, `PMPI_Pack` and `PMPI_Unpack` for one datatype, whose
elements are of type `α`; `none` is an error.  `pack` is given the size of the
output buffer and yields what the buffer then holds. -/
structure Packing (α : Type) where
  packSize : Nat → Option Nat
  pack : List α → Nat → Option (List UInt8)
  unpack : List UInt8 → Nat → Option (List α)

/-- What the callers rely on: a buffer of the size that `packSize` gives holds
the elements, and as many of them can be taken out again, but not more. -/
structure Packing.Lawful {α : Type} (pk : Packing α) : Prop where
  pack : ∀ xs bytes, pk.packSize xs.length = some bytes →
    ∃ payload, pk.pack xs bytes = some payload ∧ payload.length = bytes
  unpack : ∀ xs bytes payload, pk.packSize xs.length = some bytes →
    pk.pack xs bytes = some payload → pk.unpack payload xs.length = some xs
  unpack_short : ∀ xs bytes payload k, pk.packSize xs.length = some bytes →
    pk.pack xs bytes = some payload → xs.length < k → pk.unpack payload k = none

/-- The packing of `MPI_BYTE`. -/
def bytePacking : Packing UInt8 where
  packSize n := some n
  pack xs bytes := if xs.length ≤ bytes then some (xs ++ List.replicate (bytes - xs.length) 0)
    else none
  unpack payload k := if k ≤ payload.length then some (payload.take k) else none

theorem bytePacking_lawful : bytePacking.Lawful where
  pack xs bytes h := by
    cases h
    simp [bytePacking]
  unpack xs bytes payload hbytes hpayload := by
    cases hbytes
    simp only [bytePacking, Nat.le_refl, if_true, Nat.sub_self, List.replicate_zero,
      List.append_nil, Option.some.injEq] at hpayload
    subst hpayload
    simp [bytePacking]
  unpack_short xs bytes payload k hbytes hpayload hk := by
    cases hbytes
    simp only [bytePacking, Nat.le_refl, if_true, Nat.sub_self, List.replicate_zero,
      List.append_nil, Option.some.injEq] at hpayload
    subst hpayload
    simp [bytePacking, hk]

instance nontrivial_byte : Nontrivial UInt8 := ⟨0, 1, by decide⟩

/-- `count` elements fit into a message: its length, which `do_send` computes as an `int` and
hands to `PMPI_Send` as a count, is one. -/
def Packing.Sendable {α : Type} (pk : Packing α) (count : Nat) : Prop :=
  ∃ bytes, pk.packSize count = some bytes ∧ dataMessageSize + bytes < 2 ^ 31

instance Packing.decidableSendable {α : Type} (pk : Packing α) (count : Nat) :
    Decidable (pk.Sendable count) :=
  decidable_of_iff (∃ bytes ∈ pk.packSize count, dataMessageSize + bytes < 2 ^ 31) Iff.rfl

theorem bytePacking_sendable {count : Nat} :
    bytePacking.Sendable count ↔ dataMessageSize + count < 2 ^ 31 := by
  simp [Packing.Sendable, bytePacking]

section Sending

variable {α : Type} (pk : Packing α) (pid : Pid)

/-- `create_data_message` with its payload filled in. -/
def createDataMessage (opcode : Nat) (dstPid : Pid) (comm : Nat) (source dest tag : Int)
    (count : Nat) (payload : List UInt8) : DataMessage where
  opcode := opcode
  srcPid := pid
  dstPid := dstPid
  length := dataMessageSize + payload.length
  comm := comm
  source := source
  dest := dest
  tag := tag
  count := count
  payload := payload

/-- `do_send` of `messaging.c` at the process `pid`, with the elements of the
send buffer: the message that goes to the gateway.  A rank beyond the members
has no PID, and a length beyond the `int`s is an error of `malloc` or `PMPI_Send`. -/
def doSend (opcode : Nat) (buf : List α) (dest : Nat) (tag : Int) (c : Communicator) :
    Option DataMessage :=
  (pk.packSize buf.length).bind fun bytes =>
    if dataMessageSize + bytes < 2 ^ 31 then
      (c.getPid dest).bind fun dstPid =>
        (pk.pack buf bytes).map fun payload =>
          createDataMessage pid opcode dstPid c.handle c.globalRank dest tag buf.length payload
    else
      none

/-- `messaging_send`. -/
def messagingSend (buf : List α) (dest : Nat) (tag : Int) (c : Communicator) :
    Option DataMessage :=
  doSend pk pid opcodeData buf dest tag c

variable {pk}

/-- **What `do_send` sends.**  The message carries what its arguments and the
communicator say, and packed elements that unpack to those sent. -/
theorem doSend_eq_some (hpk : pk.Lawful) {buf : List α} (hsend : pk.Sendable buf.length)
    (opcode : Nat) (tag : Int) {dest : Nat} {c : Communicator} {dstPid : Pid}
    (hdest : c.getPid dest = some dstPid) :
    ∃ payload, doSend pk pid opcode buf dest tag c =
        some (createDataMessage pid opcode dstPid c.handle c.globalRank dest tag buf.length
          payload) ∧
      pk.unpack payload buf.length = some buf ∧
      ∀ k, buf.length < k → pk.unpack payload k = none := by
  obtain ⟨bytes, hbytes, hlt⟩ := hsend
  obtain ⟨payload, hpayload, _⟩ := hpk.pack buf bytes hbytes
  refine ⟨payload, ?_, hpk.unpack buf bytes payload hbytes hpayload, ?_⟩
  · rw [doSend, hbytes, Option.bind_some, if_pos hlt, hdest, Option.bind_some, hpayload]
    rfl
  · intro k hk
    exact hpk.unpack_short buf bytes payload k hbytes hpayload hk

/-- **What has been sent** fits into a message, and has what `do_send` gives it. -/
theorem exists_of_doSend {pid : Pid} {opcode : Nat} {buf : List α} {dest : Nat} {tag : Int}
    {c : Communicator} {m : DataMessage} (hsent : doSend pk pid opcode buf dest tag c = some m) :
    pk.Sendable buf.length ∧ ∃ dstPid payload, c.getPid dest = some dstPid ∧
      m = createDataMessage pid opcode dstPid c.handle c.globalRank dest tag buf.length payload := by
  unfold doSend at hsent
  obtain ⟨bytes, hbytes, hsent⟩ := Option.bind_eq_some_iff.mp hsent
  split at hsent
  · obtain ⟨dstPid, hdest, hsent⟩ := Option.bind_eq_some_iff.mp hsent
    obtain ⟨payload, _, rfl⟩ := Option.map_eq_some_iff.mp hsent
    exact ⟨⟨bytes, hbytes, ‹_›⟩, dstPid, payload, hdest, rfl⟩
  · cases hsent

/-- Elements that do not fit into a message are not sent. -/
theorem doSend_eq_none {opcode : Nat} {buf : List α} (hsend : ¬ pk.Sendable buf.length)
    (dest : Nat) (tag : Int) (c : Communicator) : doSend pk pid opcode buf dest tag c = none :=
  Option.eq_none_iff_forall_ne_some.mpr fun _ hsent => hsend (exists_of_doSend hsent).1

end Sending

end EsalsaMpi
