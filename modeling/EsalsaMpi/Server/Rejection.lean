import EsalsaMpi.Server.Jobs
import EsalsaMpi.Server.RequestMessages
import EsalsaMpi.Server.World
import Mathlib.Logic.Function.Basic

/-!
# Requests that the server rejects

The receiver thread of a cluster decodes one request after the other and delivers it.  The
numbers of a request are any integers.  `Server.deliverRequest` looks for the communicator,
and `Communicator.deliverRequest` for the slot of the rank; a request without one, or for a
slot that is filled, is logged and dropped.

The first test is for numbers that are too large.  A negative one gets past it to
`ArrayList.get`, which throws, and the exception ends the thread: whatever the cluster sends
later is not read any more.  All other requests that should be dropped are
(`rejected_iff_nonneg`).
-/

namespace EsalsaMpi

namespace Server

/-- What a request asks for, with the PIDs as the server uses them. -/
def RequestPayload.operation : RequestPayload → Operation
  | .split color key => .split color.toInt key.toInt
  | .group _ pids => .group (pids.map Int32.toUInt32)
  | .dup => .dup
  | .free => .free
  | .finalize => .finalize

/-- A request whose numbers are not negative. -/
def RequestMessage.request (m : RequestMessage) : CommunicatorRequest where
  source := m.source.toUInt32
  communicator := m.communicator.toInt.toNat
  rank := m.rank.toInt.toNat
  operation := m.payload.operation

/-- `ArrayList.get`; `none` when it throws. -/
def State.get (s : State) (index : Int) : Option (Option Communicator) :=
  if index < 0 then none else s[index.toNat]?

section

variable (cfg : Config) (order : HashOrder)

/-- `Communicator.deliverRequest`, from the test of the rank on. -/
def Communicator.deliverMessage (s : State) (c : Communicator) (m : RequestMessage) :
    State × List Reply :=
  if m.rank.toInt < 0 ∨ (c.size : Int) ≤ m.rank.toInt then
    (s, [])
  else
    let result := c.deliverRequest cfg order s m.request
    (result.1, result.2.replies)

/-- `Server.deliverRequest`; `none` when an exception escapes. -/
def deliverMessage (s : State) (m : RequestMessage) : Option (State × List Reply) :=
  if (s.length : Int) ≤ m.communicator.toInt then
    some (s, [])
  else
    (s.get m.communicator.toInt).map fun
      | none => (s, [])
      | some c => c.deliverMessage cfg order s m

end

/-- The receiver threads of the clusters: the server, the replies that have been enqueued,
what each thread has still to read, and whether it runs. -/
structure Receivers where
  server : State
  replies : List Reply
  streams : Nat → List UInt8
  running : Nat → Bool

namespace Receivers

/-- A thread ends, with `rest` left unread. -/
def finish (r : Receivers) (k : Nat) (rest : List UInt8) : Receivers :=
  { r with
    streams := Function.update r.streams k rest
    running := Function.update r.running k false }

/-- A round of `ReceiverThread.run` in cluster `k`.  Input that cannot be read, and an
exception of `deliverRequest`, end the thread; so does `OPCODE_CLOSE_LINK`. -/
def receive (cfg : Config) (order : HashOrder) (r : Receivers) (k : Nat) : Receivers :=
  match receiveMessage (r.streams k) with
  | none => r.finish k []
  | some (none, rest) => r.finish k rest
  | some (some m, rest) =>
    match deliverMessage cfg order r.server m with
    | none => r.finish k rest
    | some (server, replies) =>
      { r with
        server := server
        replies := r.replies ++ replies
        streams := Function.update r.streams k rest }

end Receivers

/-- A request that should be dropped: its communicator is unknown, its rank is that of no
member, or its slot is filled. -/
inductive Bad (s : State) (m : RequestMessage) : Prop where
  | unknown (h : ∀ n : Nat, m.communicator.toInt = n → ∀ c, s[n]? ≠ some (some c))
  | noRank {n : Nat} {c : Communicator} (hn : m.communicator.toInt = n)
      (hc : s[n]? = some (some c)) (hrank : m.rank.toInt < 0 ∨ (c.size : Int) ≤ m.rank.toInt)
  | filled {n r : Nat} {c : Communicator} {req : CommunicatorRequest}
      (hn : m.communicator.toInt = n) (hc : s[n]? = some (some c)) (hr : m.rank.toInt = r)
      (hslot : c.messages[r]? = some (some req))

/-- **A request is rejected without damage**: no exception escapes, the communicators of the
server are as before, no reply is enqueued, the other threads are not touched, and the thread
goes on with what follows the request. -/
structure Rejected (cfg : Config) (order : HashOrder) (r : Receivers) (k : Nat)
    (m : RequestMessage) (rest : List UInt8) : Prop where
  delivered : deliverMessage cfg order r.server m ≠ none
  server : (r.receive cfg order k).server = r.server
  replies : (r.receive cfg order k).replies = r.replies
  running : (r.receive cfg order k).running = r.running
  streams : (r.receive cfg order k).streams = Function.update r.streams k rest

variable {cfg : Config} {order : HashOrder} {s : State} {m : RequestMessage}

/-- A negative number gets to `ArrayList.get`. -/
theorem deliverMessage_of_neg (h : m.communicator.toInt < 0) :
    deliverMessage cfg order s m = none := by
  have hsmall : ¬ (s.length : Int) ≤ m.communicator.toInt := by omega
  rw [deliverMessage, if_neg hsmall, State.get, if_pos h]
  rfl

/-- A number that is not negative is looked up. -/
theorem deliverMessage_of_nonneg {n : Nat} (h : m.communicator.toInt = n) :
    deliverMessage cfg order s m = some (match s[n]? with
      | some (some c) => c.deliverMessage cfg order s m
      | _ => (s, [])) := by
  rw [deliverMessage, State.get, h]
  by_cases hlarge : s.length ≤ n
  · rw [if_pos (Int.ofNat_le.mpr hlarge), List.getElem?_eq_none hlarge]
  · have hlt := Nat.lt_of_not_le hlarge
    rw [if_neg (by omega), if_neg (by omega), Int.toNat_natCast, List.getElem?_eq_getElem hlt]
    cases s[n] with
    | none => rfl
    | some c => rfl

/-- A filled slot stays as it is. -/
theorem deliverMessage_of_filled {c : Communicator} {r : Nat} {req : CommunicatorRequest}
    (hr : m.rank.toInt = r) (hslot : c.messages[r]? = some (some req)) :
    c.deliverMessage cfg order s m = (s, []) := by
  rw [Communicator.deliverMessage]
  split
  · rfl
  · have hrank : m.request.rank = r := by
      rw [RequestMessage.request, hr, Int.toNat_natCast]
    rw [Communicator.deliverRequest, hrank, hslot]
    rfl

/-- **A bad request** whose number is not negative is dropped. -/
theorem deliverMessage_of_bad (hbad : Bad s m) (h : 0 ≤ m.communicator.toInt) :
    deliverMessage cfg order s m = some (s, []) := by
  obtain ⟨n, hn⟩ := Int.eq_ofNat_of_zero_le h
  rw [deliverMessage_of_nonneg hn]
  cases hbad with
  | unknown hunknown =>
      cases hslot : s[n]? with
      | none => rfl
      | some slot =>
          cases slot with
          | none => rfl
          | some c => exact absurd hslot (hunknown n hn c)
  | noRank hn' hc hrank =>
      obtain rfl := Int.ofNat_inj.mp (hn.symm.trans hn')
      rw [hc]
      exact congrArg some (if_pos hrank)
  | filled hn' hc hr hslot =>
      obtain rfl := Int.ofNat_inj.mp (hn.symm.trans hn')
      rw [hc]
      exact congrArg some (deliverMessage_of_filled hr hslot)

/-- **Bad requests are rejected.**  In every state of the server and its threads, a bad
request that a thread has decoded is rejected without damage if and only if its communicator
number is not negative. -/
theorem rejected_iff_nonneg (r : Receivers) (k : Nat) {rest : List UInt8}
    (hnext : receiveMessage (r.streams k) = some (some m, rest)) (hbad : Bad r.server m) :
    Rejected cfg order r k m rest ↔ 0 ≤ m.communicator.toInt := by
  constructor
  · intro h
    by_contra hneg
    exact h.delivered (deliverMessage_of_neg (Int.not_le.mp hneg))
  · intro h
    have hdelivered := @deliverMessage_of_bad cfg order r.server m hbad h
    have hreceive : r.receive cfg order k =
        { r with replies := r.replies ++ [], streams := Function.update r.streams k rest } := by
      rw [Receivers.receive]
      simp only [hnext, hdelivered]
    refine ⟨by rw [hdelivered]; exact nofun, ?_, ?_, ?_, ?_⟩
    · rw [hreceive]
    · rw [hreceive, List.append_nil]
    · rw [hreceive]
    · rw [hreceive]

/-- The request of the first process to duplicate a communicator. -/
def dupOf (communicator : Int32) : RequestMessage where
  opcode := 55
  source := 0
  destination := 0
  length := 24
  communicator := communicator
  rank := 0
  payload := .dup

/-- The server of two clusters before anything is sent, and a first cluster whose process
wants to duplicate a communicator and then the world. -/
def asksFor (communicator : Int32) : Receivers where
  server := [some (Communicator.fresh 0 (tablesSpec (worldMembers .pair))), none, none]
  replies := []
  streams := fun k =>
    if k = 0 then
      writeInts [55, 0, 0, 24, communicator, 0] ++ writeInts [55, 0, 0, 24, 0, 0]
    else []
  running := fun _ => true

/-- The first of the two requests is decoded first. -/
theorem receiveMessage_asksFor (communicator : Int32) :
    receiveMessage ((asksFor communicator).streams 0) =
      some (some (dupOf communicator), writeInts [55, 0, 0, 24, 0, 0]) :=
  @receiveMessage_writeInts (pure .dup) .dup 55 [] _ rfl rfl 0 0 24 communicator 0

/-- Communicator 2 is free, and a request for it is rejected. -/
theorem rejected_free :
    Rejected .pair .insertion (asksFor 2) 0 (dupOf 2) (writeInts [55, 0, 0, 24, 0, 0]) ∧
      0 ≤ (dupOf 2).communicator.toInt := by
  have hunknown : Bad (asksFor 2).server (dupOf 2) := by
    refine .unknown fun n hn c hc => ?_
    obtain rfl : 2 = n := Int.ofNat_inj.mp hn
    exact nomatch hc
  have hnonneg : 0 ≤ (dupOf 2).communicator.toInt := by decide
  exact ⟨(rejected_iff_nonneg (asksFor 2) 0 (receiveMessage_asksFor 2) hunknown).mpr hnonneg,
    hnonneg⟩

/-- Communicator -1 does not exist, but a request for it ends the thread: the request behind
it, for the world, is not read. -/
theorem not_rejected_neg :
    receiveMessage ((asksFor (-1)).streams 0) =
        some (some (dupOf (-1)), writeInts [55, 0, 0, 24, 0, 0]) ∧
      Bad (asksFor (-1)).server (dupOf (-1)) ∧
      ((asksFor (-1)).receive .pair .insertion 0).running 0 = false ∧
      ¬ Rejected .pair .insertion (asksFor (-1)) 0 (dupOf (-1))
        (writeInts [55, 0, 0, 24, 0, 0]) := by
  have hnext := receiveMessage_asksFor (-1)
  have hneg : (dupOf (-1)).communicator.toInt < 0 := by decide
  have hnone := @deliverMessage_of_neg .pair .insertion (asksFor (-1)).server _ hneg
  have hended : ((asksFor (-1)).receive .pair .insertion 0).running 0 = false := by
    rw [Receivers.receive]
    simp only [hnext, hnone]
    rfl
  refine ⟨hnext, .unknown fun n hn _ _ => ?_, hended, fun h => h.delivered hnone⟩
  omega

end Server

end EsalsaMpi
