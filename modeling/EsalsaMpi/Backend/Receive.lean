import EsalsaMpi.Backend.Mailbox

/-!
# Receiving a message

A message from another cluster is unpacked into the buffer of the receive
(`unpack_message`), either by the blocking `messaging_receive` or, for a
request, by `messaging_finalize_receive` after `messaging_probe_receive` has
found it.  A message from the own cluster is received by `PMPI_Recv`, whose
status `translate_status` translates.

MPI lets a receive have room for more elements than were sent.  The local path
does too; `unpack_message` asks for as many elements as there is room for, and
reports this number.  The two paths agree exactly when the sender sent as many
elements as the receiver has room for (`receivesLikeLocal_iff`).
-/

namespace EsalsaMpi

/-- How a call ended that had to look for a message: with a result, still
waiting, or in `ERROR`. -/
inductive Received (β : Type) where
  | done (result : β) (mb : Mailbox)
  | waiting (mb : Mailbox)
  | crashed

/-- `s_request` of a receive.  The flags are `REQUEST_FLAG_COMPLETED` and
`REQUEST_FLAG_UNPACKED`. -/
structure Request (α : Type) where
  completed : Bool
  unpacked : Bool
  buf : List α
  count : Nat
  type : Int
  source : Int
  tag : Int
  c : Communicator
  message : Option Arrival

/-- What the request asks for. -/
def Request.pattern {α : Type} (r : Request α) : Pattern := ⟨r.c.handle, r.source, r.tag⟩

/-- `create_request` for a receive. -/
def createRequest {α : Type} (buf : List α) (count : Nat) (type source tag : Int)
    (c : Communicator) : Request α where
  completed := false
  unpacked := false
  buf := buf
  count := count
  type := type
  source := source
  tag := tag
  c := c
  message := none

section WideArea

variable {α : Type} (pk : Packing α)

/-- `unpack_message`, for a user buffer with the elements `buf`; `none` is an
error. -/
def unpackMessage (buf : List α) (count : Nat) (type : Int) (m : DataMessage) :
    Option (List α × Status) :=
  (pk.unpack (m.payload.take (m.length - dataMessageSize)) count).map fun xs =>
    (xs ++ buf.drop count, setStatus m.source m.tag empiSuccess type count false)

/-- `messaging_receive`. -/
def messagingReceive (c : Communicator) (buf : List α) (count : Nat) (type source tag : Int)
    (mb : Mailbox) : Received (List α × Status) :=
  match mb.poll ⟨c.handle, source, tag⟩ true with
  | .found a mb' =>
    match unpackMessage pk buf count type a.message with
    | some result => .done result mb'
    | none => .crashed
  | .pending mb' => .waiting mb'
  | .crashed => .crashed

/-- `messaging_probe_receive`. -/
def messagingProbeReceive (r : Request α) (blocking : Bool) (mb : Mailbox) :
    Received (Request α) :=
  if r.completed then
    .done r mb
  else
    match mb.poll r.pattern blocking with
    | .found a mb' => .done { r with completed := true, message := some a } mb'
    | .pending mb' => if blocking then .waiting mb' else .done r mb'
    | .crashed => .crashed

/-- `messaging_finalize_receive`; `none` is an error.  A request that was
unpacked before has no status to report. -/
def messagingFinalizeReceive (r : Request α) : Option (Request α × Option Status) :=
  if r.completed = false then
    none
  else if r.unpacked then
    some (r, none)
  else
    r.message.bind fun a =>
      (unpackMessage pk r.buf r.count r.type a.message).map fun result =>
        ({ r with buf := result.1, unpacked := true }, some result.2)

end WideArea

section Local

variable {α : Type}

/-- `PMPI_Recv` of the message with the elements `xs`; `none` is the error of a
message for which there is no room. -/
def pmpiRecv (xs : List α) (source : Nat) (tag : Int) (buf : List α) (count : Nat) :
    Option (List α × MpiStatus) :=
  if xs.length ≤ count then
    some (xs ++ buf.drop xs.length, ⟨source, tag, empiSuccess, false, xs.length⟩)
  else
    none

/-- The local path of `do_recv`. -/
def doRecvLocal (mpiAnyTag : Int) (c : Communicator) (xs : List α) (source : Nat) (tag : Int)
    (buf : List α) (count : Nat) (type : Int) : Option (List α × Status) :=
  (pmpiRecv xs source tag buf count).bind fun r =>
    (translateStatus mpiAnyTag c type (some r.2)).map fun status => (r.1, status)

/-- The result that MPI asks for: the elements in the first slots of the buffer,
and a status that names sender, tag and the number of elements. -/
def delivered (xs buf : List α) (source tag type : Int) : List α × Status :=
  (xs ++ buf.drop xs.length, setStatus source tag empiSuccess type xs.length false)

/-- **The local path** delivers every message that there is room for. -/
theorem doRecvLocal_eq {mpiAnyTag : Int} {c : Communicator} {xs buf : List α}
    {source rank count : Nat} {tag type : Int} (hrank : c.getGlobalRank source = some rank)
    (htag : tag ≠ mpiAnyTag) (hle : xs.length ≤ count) :
    doRecvLocal mpiAnyTag c xs source tag buf count type =
      some (delivered xs buf rank tag type) := by
  simp [doRecvLocal, pmpiRecv, hle, translateStatus, hrank, mpi2tag, htag, delivered]

/-- A message for which there is no room is an error. -/
theorem doRecvLocal_truncated {mpiAnyTag : Int} {c : Communicator} {xs buf : List α}
    {source count : Nat} {tag type : Int} (hlt : count < xs.length) :
    doRecvLocal mpiAnyTag c xs source tag buf count type = none := by
  simp [doRecvLocal, pmpiRecv, hlt]

end Local

section Agreement

variable {α : Type} {pk : Packing α} {pid : Pid} {sent : DataMessage} {xs buf : List α}
  {dest count : Nat} {tag type : Int} {cs : Communicator}

/-- What unpacking a sent message yields. -/
theorem unpackMessage_sent (hpk : pk.Lawful) (buf : List α) (type : Int) {opcode : Nat}
    (hsent : doSend pk pid opcode xs dest tag cs = some sent) :
    unpackMessage pk buf xs.length type sent =
        some (delivered xs buf cs.globalRank tag type) ∧
      ∀ count, xs.length < count → unpackMessage pk buf count type sent = none := by
  obtain ⟨hsend, dstPid, _, hdest, _⟩ := exists_of_doSend hsent
  obtain ⟨payload, hmessage, hunpack, hshort⟩ :=
    doSend_eq_some pid hpk hsend opcode tag hdest
  cases Option.some.inj (hsent.symm.trans hmessage)
  refine ⟨?_, ?_⟩
  · simp [unpackMessage, createDataMessage, hunpack, delivered]
  · intro count hlt
    simp [unpackMessage, createDataMessage, hshort count hlt]

/-- Both wide-area routes end as the local path does, and as MPI asks. -/
structure ReceivesLikeLocal (pk : Packing α) (c : Communicator) (buf : List α) (count : Nat)
    (type : Int) (pat : Pattern) (mb : Mailbox) (a : Arrival)
    (localResult : Option (List α × Status)) (result : List α × Status) : Prop where
  local_path : localResult = some result
  receive : ∀ mb', mb.poll pat true = .found a mb' →
    messagingReceive pk c buf count type pat.source pat.tag mb = .done result mb'
  request : ∀ blocking mb', mb.poll pat blocking = .found a mb' →
    ∃ r r', messagingProbeReceive (createRequest buf count type pat.source pat.tag c)
        blocking mb = .done r mb' ∧
      messagingFinalizeReceive pk r = some (r', some result.2) ∧ r'.buf = result.1

/-- **A wide-area receive is like a local one exactly for equal counts.**  The
receive finds the message `a` with the elements `xs`, which rank `cs.globalRank`
sent; on the local path the same message comes from a process with that rank. -/
theorem receivesLikeLocal_iff (hpk : pk.Lawful)
    (hsent : messagingSend pk pid xs dest tag cs = some sent) {c lc : Communicator}
    {pat : Pattern} (hcomm : pat.comm = c.handle) {mb mb' : Mailbox} {a : Arrival}
    (hfound : mb.poll pat true = .found a mb') (ha : a.message = sent)
    {mpiAnyTag : Int} (htag : tag ≠ mpiAnyTag) {source : Nat}
    (hrank : lc.getGlobalRank source = some cs.globalRank) :
    ReceivesLikeLocal pk c buf count type pat mb a
        (doRecvLocal mpiAnyTag lc xs source tag buf count type)
        (delivered xs buf cs.globalRank tag type) ↔
      xs.length = count := by
  have hunpack := unpackMessage_sent hpk buf type hsent
  have hpattern : (⟨c.handle, pat.source, pat.tag⟩ : Pattern) = pat := by
    rw [← hcomm]
  constructor
  · intro h
    rcases Nat.lt_trichotomy xs.length count with hlt | heq | hgt
    · -- there is room for more: the payload is too short for `unpack_message`
      have hreceive := h.receive mb' hfound
      simp [messagingReceive, hpattern, hfound, ha, hunpack.2 count hlt] at hreceive
    · exact heq
    · have hlocal := h.local_path
      rw [doRecvLocal_truncated hgt] at hlocal
      cases hlocal
  · rintro rfl
    refine ⟨doRecvLocal_eq hrank htag (Nat.le_refl _), ?_, ?_⟩
    · intro mb'' hfound'
      simp [messagingReceive, hpattern, hfound', ha, hunpack.1]
    · intro blocking mb'' hfound'
      let posted := createRequest buf xs.length type pat.source pat.tag c
      let completed : Request α := { posted with completed := true, message := some a }
      have hpoll : mb.poll posted.pattern blocking = .found a mb'' := by
        rw [Request.pattern]
        exact hpattern ▸ hfound'
      refine ⟨completed, { completed with buf := xs ++ buf.drop xs.length, unpacked := true },
        ?_, ?_, rfl⟩
      · rw [messagingProbeReceive, hpoll]
        rfl
      · simp [messagingFinalizeReceive, completed, posted, createRequest, ha, hunpack.1,
          delivered]

/-- The element 7, from rank 1 in cluster 1 to rank 0 in cluster 0. -/
def seven : DataMessage :=
  createDataMessage (setPid 1 0) opcodeData (setPid 0 0) 0 1 0 5 1 [7]

/-- The mailbox of a process to which `seven` has come. -/
def sevenArrived : Mailbox := ⟨[⟨0, seven⟩], fun h => if h = 0 then some [] else none⟩

theorem receivesLikeLocal_seven :
    ReceivesLikeLocal bytePacking (worldCommunicator [1, 1] 0 0) [0, 0] 1 0 ⟨0, 1, 5⟩
      sevenArrived ⟨0, seven⟩ (doRecvLocal (-2) (worldCommunicator [2] 0 0) [7] 1 5 [0, 0] 1 0)
      (delivered [7] [0, 0] 1 5 0) := by
  have hsent : messagingSend bytePacking (setPid 1 0) [7] 0 5 (worldCommunicator [1, 1] 1 0) =
      some seven := by
    decide
  exact (receivesLikeLocal_iff bytePacking_lawful hsent rfl rfl rfl (by decide)
    (by decide)).mpr rfl

/-- A receive with room for two elements does not get the one that was sent. -/
theorem not_receivesLikeLocal_seven :
    ¬ ReceivesLikeLocal bytePacking (worldCommunicator [1, 1] 0 0) [0, 0] 2 0 ⟨0, 1, 5⟩
      sevenArrived ⟨0, seven⟩ (doRecvLocal (-2) (worldCommunicator [2] 0 0) [7] 1 5 [0, 0] 2 0)
      (delivered [7] [0, 0] 1 5 0) := by
  intro h
  have hreceive := h.receive _ rfl
  have hcrashed : messagingReceive bytePacking (worldCommunicator [1, 1] 0 0) [0, 0] 2 0 1 5
      sevenArrived = .crashed := rfl
  rw [hcrashed] at hreceive
  cases hreceive

end Agreement

end EsalsaMpi
