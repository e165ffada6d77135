import EsalsaMpi.Backend.AnySource

/-!
# Requests

The requests of a process: what `EMPI_Isend` and `EMPI_Irecv` create, and the three calls
that look at them, `EMPI_Test`, `EMPI_Wait` and `EMPI_Request_get_status`.

A request is local if the other side is in the same cluster.  It has a request of the library
of the cluster then, and so has a receive from any source in a communicator with several
clusters, which also waits for a message from outside.  The library works between the calls:
a request of the library that is `active` becomes `sent` or `received` by a step of its own.

An error of the library, and every `ERROR` and `IERROR`, ends the process.
-/

namespace EsalsaMpi

namespace Requests

variable {α : Type}

/-- An `MPI_Request`: none, an operation that goes on, or one that has completed. -/
inductive LibraryRequest (α : Type) where
  | null
  | active
  | sent
  | received (m : LocalSend α)

/-- `s_request`, with its flags `REQUEST_FLAG_LOCAL` and `REQUEST_FLAG_SEND`.  For a send,
`source` is the destination. -/
structure Posted (α : Type) extends Request α where
  isLocal : Bool
  isSend : Bool
  req : LibraryRequest α

/-- `MAX_REQUESTS`. -/
def maxRequests : Nat := 1024

/-- `EMPI_REQUEST_NULL`. -/
def requestNull : Int := -1

/-- What a process has: its requests, and the messages from other clusters. -/
structure Client (α : Type) where
  reqs : Nat → Option (Posted α)
  mailbox : Mailbox

/-- `handle_to_request`. -/
def Client.handleToRequest (s : Client α) (handle : Int) : Option (Posted α) :=
  if handle < 0 ∨ (maxRequests : Int) ≤ handle then none else s.reqs handle.toNat

/-- `add_request`. -/
def Client.addRequest (s : Client α) (p : Posted α) : Option (Client α) :=
  ((List.range maxRequests).find? fun i => (s.reqs i).isNone).map fun i =>
    { s with reqs := Function.update s.reqs i (some p) }

/-- What the caller passes by pointers; `none` is `EMPI_STATUS_IGNORE`. -/
structure Arguments where
  req : Int
  flag : Int
  status : Option Status

/-- How a call ends: it returns, waits in its loop, ends the process, or reads what nobody
has set. -/
inductive Result (β : Type) where
  | returned (b : β)
  | waiting (b : β)
  | crashed
  | undefined

def Result.map {β γ : Type} (f : β → γ) : Result β → Result γ
  | .returned b => .returned (f b)
  | .waiting b => .waiting (f b)
  | .crashed => .crashed
  | .undefined => .undefined

/-- The status of a send. -/
def Posted.sendStatus (p : Posted α) : Status :=
  setStatus p.source p.tag empiSuccess p.type p.count false

/-- `translate_status` of the status that the library has set.  It has set none for a request
that goes on, and none that says where a message came from for a send. -/
def translate (mpiAnyTag : Int) (p : Posted α) : Option Status → Result (Option Status)
  | none => .returned none
  | some _ =>
    match p.req with
    | .received m =>
      match AnyReceive.localStatus mpiAnyTag p.toRequest m with
      | some status => .returned (some status)
      | none => .crashed
    | _ => .undefined

/-- What `probe_request` works on. -/
structure Probing (α : Type) where
  request : Posted α
  mailbox : Mailbox
  flag : Int
  status : Option Status

/-- `messaging_finalize_receive` for a request that has completed. -/
def finalize (pk : Packing α) (x : Probing α) : Result (Probing α) :=
  match messagingFinalizeReceive pk x.request.toRequest with
  | none => .crashed
  | some (r, status) =>
    .returned { x with
      request := { x.request with toRequest := r }
      status := x.status.map fun old => status.getD old }

/-- The branch for local requests. -/
def probeLocal (mpiAnyTag : Int) (blocking : Bool) (x : Probing α) : Result (Probing α) :=
  match x.request.req with
  | .active => if blocking then .waiting x else .returned { x with flag := 0 }
  | _ =>
    let done : Probing α := { x with request := { x.request with req := .null }, flag := 1 }
    if x.request.isSend then
      .returned { done with status := x.status.map fun _ => x.request.sendStatus }
    else
      (translate mpiAnyTag x.request x.status).map fun status => { done with status := status }

/-- The branch for sends to other clusters. -/
def probeSend (x : Probing α) : Probing α :=
  { x with flag := 1, status := x.status.map fun _ => x.request.sendStatus }

/-- The branch for receives from a source in another cluster. -/
def probeReceive (pk : Packing α) (blocking : Bool) (x : Probing α) : Result (Probing α) :=
  match messagingProbeReceive x.request.toRequest blocking x.mailbox with
  | .crashed => .crashed
  | .waiting mb => .waiting { x with mailbox := mb }
  | .done r mb =>
    let probed : Probing α :=
      { x with request := { x.request with toRequest := r }, mailbox := mb }
    if r.completed then finalize pk { probed with flag := 1 } else .returned probed

/-- The branch for receives from any source.  A round of the loop asks the library, and looks
for a message from another cluster if it has none. -/
def probeAny (pk : Packing α) (mpiAnyTag : Int) (blocking : Bool) (x : Probing α) :
    Result (Probing α) :=
  if x.request.completed then
    .returned { x with flag := 1 }
  else
    match x.request.req with
    | .active =>
      match messagingProbeReceive x.request.toRequest false x.mailbox with
      | .done r mb =>
        let probed : Probing α :=
          { x with request := { x.request with toRequest := r }, mailbox := mb, flag := 0 }
        if r.completed then
          -- the request of the library is cancelled, and freed
          finalize pk { probed with request := { probed.request with req := .null }, flag := 1 }
        else if blocking then
          .waiting probed
        else
          .returned probed
      | _ => .crashed
    | _ =>
      (translate mpiAnyTag x.request x.status).map fun status =>
        { x with request := { x.request with req := .null }, flag := 1, status := status }

/-- The branches of `probe_request`. -/
def probe (pk : Packing α) (mpiAnyTag : Int) (blocking : Bool) (x : Probing α) :
    Result (Probing α) :=
  if x.request.isLocal then
    probeLocal mpiAnyTag blocking x
  else if x.request.isSend then
    .returned (probeSend x)
  else if x.request.source ≠ empiAnySource then
    probeReceive pk blocking x
  else
    probeAny pk mpiAnyTag blocking x

/-- What a call leaves behind; `request` is the request as it was last, freed or not. -/
structure Return (α : Type) where
  client : Client α
  arguments : Arguments
  request : Option (Posted α)

/-- The end of `probe_request`.  `free_request` leaves an operation of the library that goes
on to itself. -/
def finish (s : Client α) (args : Arguments) (x : Probing α) : Return α :=
  if x.flag = 1 then
    { client := ⟨Function.update s.reqs args.req.toNat none, x.mailbox⟩
      arguments := ⟨requestNull, 1, x.status⟩
      request := some x.request }
  else
    { client := ⟨Function.update s.reqs args.req.toNat (some x.request), x.mailbox⟩
      arguments := ⟨args.req, x.flag, x.status⟩
      request := some x.request }

/-- `probe_request`. -/
def probeRequest (pk : Packing α) (mpiAnyTag : Int) (blocking : Bool) (s : Client α)
    (args : Arguments) : Result (Return α) :=
  if args.req = requestNull then
    .returned ⟨s, ⟨args.req, 1, args.status.map fun _ => clearStatus⟩, none⟩
  else
    match s.handleToRequest args.req with
    | none => .crashed
    | some p =>
      (probe pk mpiAnyTag blocking ⟨p, s.mailbox, args.flag, args.status⟩).map (finish s args)

/-- `EMPI_Test`. -/
def empiTest (pk : Packing α) (mpiAnyTag : Int) (s : Client α) (args : Arguments) :
    Result (Return α) :=
  probeRequest pk mpiAnyTag false s args

/-- `EMPI_Wait`, which has a flag of its own. -/
def empiWait (pk : Packing α) (mpiAnyTag : Int) (s : Client α) (req : Int)
    (status : Option Status) : Result (Return α) :=
  probeRequest pk mpiAnyTag true s ⟨req, 0, status⟩

/-- `EMPI_Request_get_status`, for a request that is there. -/
def getStatus (pk : Packing α) (mpiAnyTag : Int) (x : Probing α) : Result (Probing α) :=
  let cleared := x.status.map fun _ => clearStatus
  if x.request.isLocal then
    (translate mpiAnyTag x.request cleared).map fun status =>
      { x with
        flag := match x.request.req with
          | .active => 0
          | _ => 1
        status := status }
  else if x.request.isSend then
    .returned (probeSend x)
  else
    match messagingProbeReceive x.request.toRequest false x.mailbox with
    | .done r mb =>
      let probed : Probing α :=
        { request := { x.request with toRequest := r }
          mailbox := mb
          flag := 0
          status := cleared }
      if r.completed then finalize pk { probed with flag := 1 } else .returned probed
    | _ => .crashed

/-- `EMPI_Request_get_status`. -/
def empiRequestGetStatus (pk : Packing α) (mpiAnyTag : Int) (s : Client α) (args : Arguments) :
    Result (Return α) :=
  if args.req = requestNull then
    .returned ⟨s, ⟨args.req, 1, args.status.map fun _ => clearStatus⟩, none⟩
  else
    match s.handleToRequest args.req with
    | none => .crashed
    | some p =>
      (getStatus pk mpiAnyTag ⟨p, s.mailbox, args.flag, args.status⟩).map fun x =>
        { client := ⟨Function.update s.reqs args.req.toNat (some x.request), x.mailbox⟩
          arguments := ⟨args.req, x.flag, x.status⟩
          request := some x.request }

/-- The request of `EMPI_Isend`. -/
def isendRequest (isLocal : Bool) (buf : List α) (count : Nat) (type dest tag : Int)
    (c : Communicator) : Posted α :=
  { createRequest buf count type dest tag c with
    isLocal := isLocal
    isSend := true
    req := if isLocal then .active else .null }

/-- The request of `EMPI_Irecv`, before it is probed. -/
def irecvRequest (isLocal : Bool) (buf : List α) (count : Nat) (type source tag : Int)
    (c : Communicator) : Posted α :=
  { createRequest buf count type source tag c with
    isLocal := isLocal
    isSend := false
    req := if isLocal ∨ source = empiAnySource then .active else .null }

/-- `EMPI_Irecv`, with `local` as it is computed from the source and the communicator. -/
def empiIrecv (s : Client α) (p : Posted α) : Result (Client α) :=
  if p.isLocal ∨ p.source = empiAnySource then
    match s.addRequest p with
    | some s' => .returned s'
    | none => .crashed
  else
    match messagingProbeReceive p.toRequest false s.mailbox with
    | .done r mb =>
      match ({ s with mailbox := mb } : Client α).addRequest { p with toRequest := r } with
      | some s' => .returned s'
      | none => .crashed
    | _ => .crashed

end Requests

end EsalsaMpi
