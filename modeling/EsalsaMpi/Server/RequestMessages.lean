import EsalsaMpi.Server.ReplyMessages

/-!
# Requests as messages

`Cluster.receiveMessage` and the constructors of the requests, which read
their fields from the input stream of a cluster one `readInt` after the other.
The stream is the bytes still to be read; reading behind its end throws, as do
an unknown opcode and a negative group size.
-/

namespace EsalsaMpi

open Wire

namespace Server

/-- What the subclasses of `CommunicatorRequest` add. -/
inductive RequestPayload where
  | split (color key : Int32)
  | group (size : Int32) (pids : List Int32)
  | dup
  | free
  | finalize
deriving DecidableEq

/-- `CommunicatorRequest` with its subclasses, as read from a stream. -/
structure RequestMessage extends Message where
  communicator : Int32
  rank : Int32
  payload : RequestPayload
deriving DecidableEq

/-- `DataInputStream.readInt`. -/
def readInt : StateT (List UInt8) Option Int32 := fun stream =>
  (Wire.readInt stream).map fun (w, rest) => (w.toInt32, rest)

/-- The loop that reads `n` integers. -/
def readInts : Nat → StateT (List UInt8) Option (List Int32)
  | 0 => pure []
  | n + 1 => do
    let x ← readInt
    let xs ← readInts n
    return x :: xs

/-- The constructor of `Message` behind the opcode. -/
def Message.read (opcode : Int32) : StateT (List UInt8) Option Message := do
  let source ← readInt
  let destination ← readInt
  let length ← readInt
  return ⟨opcode, source, destination, length⟩

/-- The payload of a split, `SplitRequest`. -/
def readSplit : StateT (List UInt8) Option RequestPayload := do
  let color ← readInt
  let key ← readInt
  return .split color key

/-- The payload of a create, `GroupRequest`. -/
def readGroup : StateT (List UInt8) Option RequestPayload := do
  let size ← readInt
  if size.toInt < 0 then
    failure
  let pids ← readInts size.toInt.toNat
  return .group size pids

/-- The constructor of `CommunicatorRequest`, followed by that of a subclass. -/
def RequestMessage.read (opcode : Int32) (payload : StateT (List UInt8) Option RequestPayload) :
    StateT (List UInt8) Option RequestMessage := do
  let header ← Message.read opcode
  let communicator ← readInt
  let rank ← readInt
  let payload ← payload
  return { header with communicator := communicator, rank := rank, payload := payload }

/-- `Cluster.receiveMessage`: the request it delivers, none after
`OPCODE_CLOSE_LINK`. -/
def receiveMessage : StateT (List UInt8) Option (Option RequestMessage) := do
  let opcode ← readInt
  match opcode with
  | 51 => some <$> RequestMessage.read opcode readSplit
  | 53 => some <$> RequestMessage.read opcode readGroup
  | 55 => some <$> RequestMessage.read opcode (pure .dup)
  | 57 => some <$> RequestMessage.read opcode (pure .free)
  | 58 => some <$> RequestMessage.read opcode (pure .finalize)
  | 127 => return none
  | _ => failure

/-- Reading the first of a row of integers that was written. -/
theorem readInt_writeInts (x : Int32) (xs : List Int32) (rest : List UInt8) :
    readInt (writeInts (x :: xs) ++ rest) = some (x, writeInts xs ++ rest) := by
  have hcons : writeInts (x :: xs) ++ rest = toBytes x.toUInt32 ++ (writeInts xs ++ rest) := by
    rw [writeInts, wordsOf, List.map_cons, bytesOf_cons, List.append_assoc]
    rfl
  rw [readInt, hcons, readInt_toBytes]
  rfl

/-- What follows after the first integer has been read. -/
theorem bind_readInt_writeInts {α : Type} (f : Int32 → StateT (List UInt8) Option α)
    (x : Int32) (xs : List Int32) (rest : List UInt8) :
    (readInt >>= f) (writeInts (x :: xs) ++ rest) = f x (writeInts xs ++ rest) := by
  show (readInt (writeInts (x :: xs) ++ rest)).bind (fun p => f p.1 p.2) = _
  rw [readInt_writeInts, Option.bind_some]

/-- Reading a request behind its opcode. -/
theorem read_writeInts {payload : StateT (List UInt8) Option RequestPayload}
    {value : RequestPayload} {ints : List Int32} {rest : List UInt8}
    (hpayload : payload (writeInts ints ++ rest) = some (value, rest))
    (opcode source destination length communicator rank : Int32) :
    RequestMessage.read opcode payload
        (writeInts (source :: destination :: length :: communicator :: rank :: ints) ++ rest) =
      some (⟨⟨opcode, source, destination, length⟩, communicator, rank, value⟩, rest) := by
  rw [RequestMessage.read, Message.read]
  simp only [bind_assoc, bind_readInt_writeInts, pure_bind]
  show (payload (writeInts ints ++ rest)).bind _ = _
  rw [hpayload]
  rfl

/-- The constructor that reads the payload behind an opcode. -/
def payloadReader (opcode : Int32) : Option (StateT (List UInt8) Option RequestPayload) :=
  match opcode with
  | 51 => some readSplit
  | 53 => some readGroup
  | 55 => some (pure .dup)
  | 57 => some (pure .free)
  | 58 => some (pure .finalize)
  | _ => none

/-- Receiving a request whose opcode has a reader. -/
theorem receiveMessage_writeInts {payload : StateT (List UInt8) Option RequestPayload}
    {value : RequestPayload} {opcode : Int32} {ints : List Int32} {rest : List UInt8}
    (hreader : payloadReader opcode = some payload)
    (hpayload : payload (writeInts ints ++ rest) = some (value, rest))
    (source destination length communicator rank : Int32) :
    receiveMessage (writeInts
        (opcode :: source :: destination :: length :: communicator :: rank :: ints) ++ rest) =
      some (some ⟨⟨opcode, source, destination, length⟩, communicator, rank, value⟩, rest) := by
  have hread := read_writeInts hpayload opcode source destination length communicator rank
  rw [receiveMessage, bind_readInt_writeInts]
  have hdeliver : (some <$> RequestMessage.read opcode payload) (writeInts
        (source :: destination :: length :: communicator :: rank :: ints) ++ rest) =
      some (some ⟨⟨opcode, source, destination, length⟩, communicator, rank, value⟩, rest) := by
    show (RequestMessage.read opcode payload _).bind _ = _
    rw [hread]
    rfl
  unfold payloadReader at hreader
  split at hreader <;> cases hreader <;> exact hdeliver

end Server

end EsalsaMpi
