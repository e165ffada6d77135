import EsalsaMpi.Library.Framing
import EsalsaMpi.Library.Wire
import Mathlib.Logic.Relation

/-!
# Messages on one socket

`nonblock_write_message` and `nonblock_read_message` stop wherever the socket
would block and go on from there at the next event.  They are cut here at
their calls of `write` and `read`, so that a step of a link is one such call:
the operating system accepts or returns as many bytes as it likes, and both
ends take their steps in any order.  The position of an unfinished message,
which the code keeps in the local `count` during a call and in `inpos` or
`outpos` between two calls, is one field.

The length of a message is in the order of the network on the link to the
server and in the order of the machines on a link between gateways.  Either
way, the reader enqueues the messages that the writer has dequeued:
`LinkKind.delivers`.
-/

namespace EsalsaMpi

open Wire

/-- A message as the bytes that it occupies. -/
abbrev Bytes := List UInt8

/-- `TYPE_SERVER` and `TYPE_DATA`. -/
inductive SocketType where
  | server
  | data
deriving DecidableEq, Repr

/-- `sizeof(generic_message)`: the header alone. -/
def genericMessageSize : Nat := 16

/-- `header.length`, converted on the link to the server. -/
def headerLength (type : SocketType) (o : ByteOrder) (m : Bytes) : Nat :=
  match type with
  | .server => (((o.load m 12).map o.ntohl).getD 0).toNat
  | .data => ((o.load m 12).getD 0).toNat

/-- `socket_info`: the message being read, as far as it has been read, and the
message being written. -/
structure SocketInfo where
  type : SocketType
  inMessage : Option Bytes
  incount : Nat
  outMessage : Option Bytes
  outpos : Nat
  outcount : Nat
deriving DecidableEq

/-- `init_socket_info`. -/
def SocketInfo.init (type : SocketType) : SocketInfo := ⟨type, none, 0, none, 0, 0⟩

namespace SocketInfo

/-- `prepare_message`: the queue without a message that is dequeued, `none`
when there is nothing to write. -/
def prepareMessage (o : ByteOrder) (info : SocketInfo) (outQueue : List Bytes) :
    Option (SocketInfo × List Bytes) :=
  match info.outMessage with
  | some _ => some (info, outQueue)
  | none =>
    match outQueue with
    | [] => none
    | m :: rest =>
      some ({ info with
        outMessage := some m
        outpos := 0
        outcount := headerLength info.type o m }, rest)

/-- The bytes that `nonblock_write_message` passes to `write`. -/
def toWrite (info : SocketInfo) : Bytes :=
  ((info.outMessage.getD []).take info.outcount).drop info.outpos

/-- `nonblock_write_message` after `write` has accepted `tmp` bytes. -/
def afterWrite (info : SocketInfo) (tmp : Nat) : SocketInfo :=
  if info.outpos + tmp < info.outcount then
    { info with outpos := info.outpos + tmp }
  else
    { info with outMessage := none, outpos := 0, outcount := 0 }

/-- The start of `nonblock_read_message`. -/
def startRead (info : SocketInfo) : SocketInfo :=
  match info.inMessage with
  | none => { info with inMessage := some [], incount := genericMessageSize }
  | some _ => info

/-- How `nonblock_read_message` goes on after a call of `read`: with another
call, by enqueueing a message, or not properly. -/
inductive ReadOutcome where
  | again (info : SocketInfo)
  | enqueued (info : SocketInfo) (m : Bytes)
  | failed

/-- `nonblock_read_message` after `read` has returned the bytes of `chunk`.  On
a length below that of the header it would call itself forever. -/
def afterRead (o : ByteOrder) (info : SocketInfo) (chunk : Bytes) : ReadOutcome :=
  let got := info.inMessage.getD [] ++ chunk
  if got.length < info.incount then
    .again { info with inMessage := some got }
  else if got.length < genericMessageSize then
    .failed
  else if got.length > genericMessageSize then
    .enqueued { info with inMessage := none, incount := 0 } got
  else
    let len := headerLength info.type o got
    if len = genericMessageSize then
      .enqueued { info with inMessage := none, incount := genericMessageSize } got
    else if len > genericMessageSize then
      .again { info with inMessage := some got, incount := len }
    else
      .failed

end SocketInfo

/-- The two kinds of links: between gateways, whose machines have one byte
order, and to the server. -/
inductive LinkKind where
  | data (o : ByteOrder)
  | server (writer reader : ByteOrder)

namespace LinkKind

def type : LinkKind → SocketType
  | data _ => .data
  | server _ _ => .server

def writerOrder : LinkKind → ByteOrder
  | data o => o
  | server writer _ => writer

def readerOrder : LinkKind → ByteOrder
  | data o => o
  | server _ reader => reader

/-- The length field of a message equals its size, which is at least that of
the header. -/
def WellSized (k : LinkKind) (m : Bytes) : Prop :=
  genericMessageSize ≤ m.length ∧ headerLength k.type k.writerOrder m = m.length

end LinkKind

/-- One direction of a connection: the socket of the writer, the bytes on
their way and the socket of the reader.  `dequeued` lists the messages that the
writer has taken from its queue, `enqueued` those that the reader has put into
its own. -/
structure Stream where
  sender : SocketInfo
  dequeued : List Bytes
  wire : Bytes
  receiver : SocketInfo
  enqueued : List Bytes

/-- A connection on which nothing has been sent. -/
def Stream.start (k : LinkKind) : Stream := ⟨.init k.type, [], [], .init k.type, []⟩

/-- The operating system returns the bytes of `chunk` to the reader, no more
than it asks for. -/
structure Stream.Returns (s : Stream) (chunk wire : Bytes) : Prop where
  wire : s.wire = chunk ++ wire
  chunk_ne : chunk ≠ []
  count : (s.receiver.startRead.inMessage.getD []).length + chunk.length ≤
    s.receiver.startRead.incount

/-- A step of a connection, with the queue of the writer before and after it
and the message that is enqueued at the reader.  A `write` that would block
changes nothing; a `read` that would block leaves the reader ready for the
next one. -/
inductive Stream.Step (k : LinkKind) :
    List Bytes → Stream → Option Bytes → List Bytes → Stream → Prop where
  | dequeue {s : Stream} {m : Bytes} {rest : List Bytes} {sender : SocketInfo}
      (hidle : s.sender.outMessage = none)
      (hprepare : s.sender.prepareMessage k.writerOrder (m :: rest) = some (sender, rest)) :
      Step k (m :: rest) s none rest
        { s with sender := sender, dequeued := s.dequeued ++ [m] }
  | write {queue : List Bytes} {s : Stream} (tmp : Nat) (hbusy : s.sender.outMessage ≠ none)
      (htmp : tmp ≤ s.sender.toWrite.length) :
      Step k queue s none queue
        { s with
          sender := s.sender.afterWrite tmp
          wire := s.wire ++ s.sender.toWrite.take tmp }
  | readBlocked {queue : List Bytes} {s : Stream} :
      Step k queue s none queue { s with receiver := s.receiver.startRead }
  | readAgain {queue : List Bytes} {s : Stream} {chunk wire : Bytes} {info : SocketInfo}
      (hreturns : s.Returns chunk wire)
      (hread : s.receiver.startRead.afterRead k.readerOrder chunk = .again info) :
      Step k queue s none queue { s with wire := wire, receiver := info }
  | readEnqueued {queue : List Bytes} {s : Stream} {chunk wire m : Bytes} {info : SocketInfo}
      (hreturns : s.Returns chunk wire)
      (hread : s.receiver.startRead.afterRead k.readerOrder chunk = .enqueued info m) :
      Step k queue s (some m) queue
        { s with wire := wire, receiver := info, enqueued := s.enqueued ++ [m] }

/-- One socket with its queue, which is filled while it is drained. -/
inductive Link.Step (k : LinkKind) : List Bytes × Stream → List Bytes × Stream → Prop where
  | fill {queue : List Bytes} {s : Stream} (m : Bytes) (hm : k.WellSized m) :
      Step k (queue, s) (queue ++ [m], s)
  | socket {queue queue' : List Bytes} {s s' : Stream} {enqueued : Option Bytes}
      (hstep : Stream.Step k queue s enqueued queue' s') :
      Step k (queue, s) (queue', s')

/-- The states of a link in a run. -/
def Link.Reachable (k : LinkKind) (queue : List Bytes) (s : Stream) : Prop :=
  Relation.ReflTransGen (Link.Step k) ([], .start k) (queue, s)

/-- Whatever happens on a link, the reader enqueues the messages that the
writer dequeues, and all of them once every byte is across; no call of `read`
fails. -/
def LinkKind.Delivers (k : LinkKind) : Prop :=
  ∀ queue s, Link.Reachable k queue s →
    s.enqueued <+: s.dequeued ∧
    (s.sender.outMessage = none → s.wire = [] → s.enqueued = s.dequeued) ∧
    ∀ chunk wire, s.Returns chunk wire →
      s.receiver.startRead.afterRead k.readerOrder chunk ≠ .failed

/-- The bytes of a message that are still to be written. -/
def SocketInfo.pending (info : SocketInfo) : Bytes :=
  (info.outMessage.getD []).drop info.outpos

/-- The bytes of a message that have been read. -/
def SocketInfo.got (info : SocketInfo) : Bytes := info.inMessage.getD []

theorem headerLength_take (type : SocketType) (o : ByteOrder) (m : Bytes) :
    headerLength type o (m.take genericMessageSize) = headerLength type o m := by
  have hload := o.load_take m (by decide : 12 + 4 ≤ genericMessageSize)
  cases type <;> simp only [headerLength, hload]

/-- The frames that a reader cuts. -/
def LinkKind.framing (k : LinkKind) : Framing UInt8 where
  header := genericMessageSize
  length := headerLength k.type k.readerOrder
  header_pos := by decide
  length_take := fun m _ => headerLength_take k.type k.readerOrder m

/-- Both ends read the same length. -/
theorem LinkKind.headerLength_eq (k : LinkKind) (m : Bytes) :
    headerLength k.type k.writerOrder m = headerLength k.type k.readerOrder m := by
  cases k with
  | data o => rfl
  | server writer reader =>
      simp only [headerLength, type, writerOrder, readerOrder, ByteOrder.ntohl_load]

theorem LinkKind.WellSized.isFrame {k : LinkKind} {m : Bytes} (h : k.WellSized m) :
    k.framing.IsFrame m :=
  ⟨h.1, (k.headerLength_eq m).symm.trans h.2⟩

/-- **What holds on a connection.**  The messages enqueued, the part of a
message that has been read, the bytes on their way and the part that is still
to be written are the messages dequeued. -/
structure Stream.Inv (k : LinkKind) (s : Stream) : Prop where
  stream : s.enqueued.flatten ++ s.receiver.got ++ s.wire ++ s.sender.pending =
    s.dequeued.flatten
  dequeued : ∀ m ∈ s.dequeued, k.WellSized m
  enqueued : ∀ m ∈ s.enqueued, k.framing.IsFrame m
  sender_type : s.sender.type = k.type
  receiver_type : s.receiver.type = k.type
  sender : ∀ m, s.sender.outMessage = some m →
    s.sender.outcount = m.length ∧ s.sender.outpos < m.length
  receiver : ∀ got, s.receiver.inMessage = some got →
    k.framing.Incomplete got s.receiver.incount

variable {k : LinkKind} {s s' : Stream}

theorem Stream.inv_start (k : LinkKind) : (Stream.start k).Inv k where
  stream := rfl
  dequeued := by simp [start]
  enqueued := by simp [start]
  sender_type := rfl
  receiver_type := rfl
  sender := by simp [start, SocketInfo.init]
  receiver := by simp [start, SocketInfo.init]

/-- Starting a call reads nothing. -/
theorem SocketInfo.got_startRead (info : SocketInfo) : info.startRead.got = info.got := by
  unfold startRead got
  split
  · rename_i h
    rw [h]
    rfl
  · rfl

theorem SocketInfo.exists_inMessage_startRead (info : SocketInfo) :
    info.startRead.inMessage = some info.got := by
  unfold startRead got
  split
  · rename_i h
    rw [h]
    rfl
  · rename_i h
    rw [h]
    rfl

/-- The reader is inside of a message once a call has started. -/
theorem Stream.Inv.incomplete_startRead (h : s.Inv k) :
    k.framing.Incomplete s.receiver.got s.receiver.startRead.incount := by
  unfold SocketInfo.startRead SocketInfo.got
  split
  · rename_i hnone
    rw [hnone]
    exact ⟨Nat.zero_lt_succ _, Or.inl rfl⟩
  · rename_i got hsome
    rw [hsome]
    exact h.receiver got hsome

/-- Dequeueing the next message. -/
theorem Stream.Inv.dequeue (h : s.Inv k) {m : Bytes} {rest : List Bytes} {sender : SocketInfo}
    (hm : k.WellSized m) (hidle : s.sender.outMessage = none)
    (hprepare : s.sender.prepareMessage k.writerOrder (m :: rest) = some (sender, rest)) :
    Stream.Inv k { s with sender := sender, dequeued := s.dequeued ++ [m] } := by
  simp only [SocketInfo.prepareMessage, hidle, Option.some.injEq, Prod.mk.injEq, and_true]
    at hprepare
  subst hprepare
  have hpending : s.sender.pending = [] := by
    rw [SocketInfo.pending, hidle]
    exact List.drop_nil
  have hstream := h.stream
  rw [hpending, List.append_nil] at hstream
  refine
    { stream := ?_
      dequeued := ?_
      enqueued := h.enqueued
      sender_type := h.sender_type
      receiver_type := h.receiver_type
      sender := ?_
      receiver := h.receiver }
  · rw [hstream]
    simp [SocketInfo.pending]
  · intro m' hm'
    rcases List.mem_append.mp hm' with hm' | hm'
    · exact h.dequeued m' hm'
    · rw [List.mem_singleton.mp hm']
      exact hm
  · intro m' hm'
    cases hm'
    have hpos := hm.1
    unfold genericMessageSize at hpos
    refine ⟨?_, by show 0 < m.length; omega⟩
    show headerLength s.sender.type k.writerOrder m = m.length
    rw [h.sender_type]
    exact hm.2

/-- Writing a part of a message. -/
theorem Stream.Inv.write (h : s.Inv k) (tmp : Nat) (hbusy : s.sender.outMessage ≠ none) :
    Stream.Inv k { s with
      sender := s.sender.afterWrite tmp
      wire := s.wire ++ s.sender.toWrite.take tmp } := by
  obtain ⟨m, hm⟩ := Option.ne_none_iff_exists'.mp hbusy
  obtain ⟨hcount, hpos⟩ := h.sender m hm
  have htoWrite : s.sender.toWrite = m.drop s.sender.outpos := by
    rw [SocketInfo.toWrite, hm, hcount, Option.getD_some, List.take_length]
  have hpending : s.sender.pending = m.drop s.sender.outpos := by
    rw [SocketInfo.pending, hm, Option.getD_some]
  have hafter : (s.sender.afterWrite tmp).pending = m.drop (s.sender.outpos + tmp) := by
    unfold SocketInfo.afterWrite
    split
    · simp [SocketInfo.pending, hm]
    · have : m.length ≤ s.sender.outpos + tmp := by omega
      simp [SocketInfo.pending, List.drop_eq_nil_of_le this]
  have hstream := h.stream
  have hsplit : (m.drop s.sender.outpos).take tmp ++ m.drop (s.sender.outpos + tmp) =
      m.drop s.sender.outpos := by
    rw [← List.drop_drop, List.take_append_drop]
  refine
    { stream := ?_
      dequeued := h.dequeued
      enqueued := h.enqueued
      sender_type := ?_
      receiver_type := h.receiver_type
      sender := ?_
      receiver := h.receiver }
  · show s.enqueued.flatten ++ s.receiver.got ++ (s.wire ++ s.sender.toWrite.take tmp) ++
      (s.sender.afterWrite tmp).pending = s.dequeued.flatten
    rw [hafter, htoWrite, ← hstream, hpending]
    simp only [List.append_assoc, hsplit]
  · unfold SocketInfo.afterWrite
    split <;> exact h.sender_type
  · intro m' hm'
    unfold SocketInfo.afterWrite at hm' ⊢
    split at hm'
    · rename_i hlt
      rw [if_pos hlt]
      rw [hm, Option.some.injEq] at hm'
      subst hm'
      exact ⟨hcount, by rw [← hcount]; exact hlt⟩
    · cases hm'

/-- What the reader has read so far starts the messages that are not enqueued
yet. -/
theorem Stream.Inv.exists_rest (h : s.Inv k) :
    ∃ rest, s.dequeued = s.enqueued ++ rest ∧ (∀ m ∈ rest, k.WellSized m) ∧
      s.receiver.got ++ s.wire <+: rest.flatten := by
  have hframes : ∀ m ∈ s.dequeued, k.framing.IsFrame m := fun m hm => (h.dequeued m hm).isFrame
  have hprefix : s.enqueued.flatten ++ (s.receiver.got ++ s.wire) <+: s.dequeued.flatten :=
    ⟨s.sender.pending, by rw [← h.stream]; simp only [List.append_assoc]⟩
  obtain ⟨rest, hrest, hgot⟩ := Framing.prefix_of_flatten h.enqueued hframes hprefix
  exact ⟨rest, hrest, fun m hm => h.dequeued m (by rw [hrest]; simp [hm]), hgot⟩

theorem SocketInfo.type_startRead (info : SocketInfo) : info.startRead.type = info.type := by
  unfold startRead
  split <;> rfl

/-- How a call of `read` ends on a stream of messages: the reader is still
inside of a message, or it has a whole one. -/
theorem Stream.Inv.afterRead (h : s.Inv k) {chunk wire : Bytes} (hreturns : s.Returns chunk wire) :
    (∃ incount, s.receiver.startRead.afterRead k.readerOrder chunk =
        .again { s.receiver.startRead with
          inMessage := some (s.receiver.got ++ chunk), incount := incount } ∧
      k.framing.Incomplete (s.receiver.got ++ chunk) incount) ∨
    (∃ incount, s.receiver.startRead.afterRead k.readerOrder chunk =
        .enqueued { s.receiver.startRead with inMessage := none, incount := incount }
          (s.receiver.got ++ chunk) ∧
      k.framing.IsFrame (s.receiver.got ++ chunk)) := by
  obtain ⟨rest, _, hsized, hgot⟩ := h.exists_rest
  obtain ⟨hlt, hwanted⟩ := h.incomplete_startRead
  have hmessage := s.receiver.exists_inMessage_startRead
  have hcount := hreturns.count
  have htype : s.receiver.startRead.type = k.type :=
    (SocketInfo.type_startRead _).trans h.receiver_type
  have hgrown : k.framing.header ≤ s.receiver.got.length →
      k.framing.length (s.receiver.got ++ chunk) = k.framing.length s.receiver.got :=
    fun hle => Framing.length_append hle chunk
  have hlonger : s.receiver.got.length < (s.receiver.got ++ chunk).length := by
    have := List.length_pos_iff.mpr hreturns.chunk_ne
    rw [List.length_append]
    omega
  have hheader : k.framing.header = genericMessageSize := rfl
  have hlength : k.framing.length = headerLength k.type k.readerOrder := rfl
  rw [hmessage, Option.getD_some, ← List.length_append] at hcount
  rw [hreturns.wire, ← List.append_assoc] at hgot
  simp only [SocketInfo.afterRead, hmessage, Option.getD_some, htype]
  generalize s.receiver.got ++ chunk = got at *
  rcases Nat.lt_or_eq_of_le hcount with hmore | hfull
  · -- the header or the message is not complete yet
    left
    refine ⟨_, if_pos hmore, hmore, ?_⟩
    rcases hwanted with hwanted | ⟨hle, hwanted⟩
    · exact Or.inl hwanted
    · exact Or.inr ⟨by omega, hwanted.trans (hgrown hle).symm⟩
  · rw [if_neg (by omega)]
    rcases hwanted with hwanted | ⟨hle, hwanted⟩
    · -- the header is complete and tells the length of the message
      obtain ⟨m, ms, hms, hlen, _⟩ := Framing.next_frame (fun m hm => (hsized m hm).isFrame)
        (by omega) ((List.prefix_append got wire).trans hgot)
      have hm := (hsized m (by rw [hms]; exact List.mem_cons_self)).1
      rw [hlength] at hlen
      rw [if_neg (by omega), if_neg (by omega)]
      by_cases hshort : headerLength k.type k.readerOrder got = genericMessageSize
      · right
        exact ⟨_, if_pos hshort, by omega, hshort.trans (by omega)⟩
      · left
        refine ⟨_, (if_neg hshort).trans (if_pos (by omega)), ?_, Or.inr ⟨by omega, rfl⟩⟩
        show got.length < headerLength k.type k.readerOrder got
        omega
    · -- the message is complete
      right
      rw [if_neg (by omega), if_pos (by omega)]
      exact ⟨_, rfl, by omega, (hgrown hle).trans (by omega)⟩

/-- The messages enqueued are the first of those dequeued. -/
theorem Stream.Inv.isPrefix_enqueued (h : s.Inv k) : s.enqueued <+: s.dequeued := by
  obtain ⟨rest, hrest, _⟩ := h.exists_rest
  exact ⟨rest, hrest.symm⟩

/-- All messages are enqueued once every byte is across. -/
theorem Stream.Inv.enqueued_eq (h : s.Inv k) (hidle : s.sender.outMessage = none)
    (hwire : s.wire = []) : s.enqueued = s.dequeued := by
  have hstream := h.stream
  have hpending : s.sender.pending = [] := by
    rw [SocketInfo.pending, hidle]
    exact List.drop_nil
  rw [hwire, hpending, List.append_nil, List.append_nil] at hstream
  exact (Framing.eq_of_flatten h.enqueued (fun m hm => (h.dequeued m hm).isFrame)
    h.incomplete_startRead hstream).1

/-- A step keeps the invariant, when the queue holds messages of the right
size. -/
theorem Stream.Inv.step (h : s.Inv k) {queue queue' : List Bytes} {enqueued : Option Bytes}
    (hqueue : ∀ m ∈ queue, k.WellSized m) (hstep : Stream.Step k queue s enqueued queue' s') :
    s'.Inv k := by
  cases hstep with
  | dequeue hidle hprepare => exact h.dequeue (hqueue _ List.mem_cons_self) hidle hprepare
  | write tmp hbusy _ => exact h.write tmp hbusy
  | readBlocked =>
      exact
        { h with
          stream := by
            show s.enqueued.flatten ++ s.receiver.startRead.got ++ _ ++ _ = _
            rw [SocketInfo.got_startRead]
            exact h.stream
          receiver_type := (SocketInfo.type_startRead _).trans h.receiver_type
          receiver := by
            intro got hgot
            have hmessage := s.receiver.exists_inMessage_startRead
            rw [show s.receiver.startRead.inMessage = some got from hgot,
              Option.some.injEq] at hmessage
            rw [hmessage]
            exact h.incomplete_startRead }
  | readAgain hreturns hread =>
      have hstream := h.stream
      rw [hreturns.wire] at hstream
      rcases h.afterRead hreturns with ⟨incount, hagain, hinc⟩ | ⟨incount, henqueued, _⟩
      · rw [hagain, SocketInfo.ReadOutcome.again.injEq] at hread
        subst hread
        exact
          { h with
            stream := by
              rw [← hstream]
              simp only [SocketInfo.got, Option.getD_some, List.append_assoc]
            receiver_type := (SocketInfo.type_startRead _).trans h.receiver_type
            receiver := by
              intro got hgot
              cases hgot
              exact hinc }
      · rw [henqueued] at hread
        cases hread
  | readEnqueued hreturns hread =>
      have hstream := h.stream
      rw [hreturns.wire] at hstream
      rcases h.afterRead hreturns with ⟨incount, hagain, _⟩ | ⟨incount, henqueued, hframe⟩
      · rw [hagain] at hread
        cases hread
      · rw [henqueued, SocketInfo.ReadOutcome.enqueued.injEq] at hread
        obtain ⟨rfl, rfl⟩ := hread
        exact
          { h with
            stream := by
              rw [← hstream]
              simp [SocketInfo.got]
            enqueued := by
              intro m hm
              rcases List.mem_append.mp hm with hm | hm
              · exact h.enqueued m hm
              · rw [List.mem_singleton.mp hm]
                exact hframe
            receiver_type := (SocketInfo.type_startRead _).trans h.receiver_type
            receiver := by
              intro got hgot
              cases hgot }

/-- What a step leaves in the queue was there before. -/
theorem Stream.Step.queue {queue queue' : List Bytes} {enqueued : Option Bytes}
    (hstep : Stream.Step k queue s enqueued queue' s') : ∀ m ∈ queue', m ∈ queue := by
  cases hstep with
  | dequeue => exact fun m hm => List.mem_cons_of_mem _ hm
  | write => exact fun m hm => hm
  | readBlocked => exact fun m hm => hm
  | readAgain => exact fun m hm => hm
  | readEnqueued => exact fun m hm => hm

/-- The invariant holds in every run. -/
theorem Link.inv_of_reachable {queue : List Bytes} (h : Link.Reachable k queue s) :
    s.Inv k ∧ ∀ m ∈ queue, k.WellSized m := by
  unfold Link.Reachable at h
  generalize hq : (queue, s) = state at h
  induction h generalizing queue s with
  | refl =>
      cases hq
      exact ⟨Stream.inv_start k, by simp⟩
  | tail _ hstep ih =>
      cases hstep with
      | fill m hm =>
          cases hq
          obtain ⟨hinv, hqueue⟩ := ih rfl
          refine ⟨hinv, fun m' hm' => ?_⟩
          rcases List.mem_append.mp hm' with hm' | hm'
          · exact hqueue m' hm'
          · rw [List.mem_singleton.mp hm']
            exact hm
      | socket hstep =>
          cases hq
          obtain ⟨hinv, hqueue⟩ := ih rfl
          exact ⟨hinv.step hqueue hstep, fun m hm => hqueue m (hstep.queue m hm)⟩

/-- **Framing.**  On a link of either kind the reader enqueues exactly the
messages that the writer dequeues. -/
theorem LinkKind.delivers (k : LinkKind) : k.Delivers := by
  intro queue s h
  obtain ⟨hinv, _⟩ := Link.inv_of_reachable h
  refine ⟨hinv.isPrefix_enqueued, hinv.enqueued_eq, ?_⟩
  intro chunk wire hreturns hfailed
  rcases hinv.afterRead hreturns with ⟨_, hagain, _⟩ | ⟨_, henqueued, _⟩
  · rw [hagain] at hfailed
    cases hfailed
  · rw [henqueued] at hfailed
    cases hfailed

/-- A socket on which nothing has been sent can pass one message: dequeue it,
write it, read its header and read the rest. -/
theorem Stream.exists_pass {m : Bytes} (hm : k.WellSized m)
    (hlong : genericMessageSize < m.length) (rest : List Bytes) :
    ∃ s₁ s₂ s₃ s₄, Stream.Step k (m :: rest) (.start k) none rest s₁ ∧
      Stream.Step k rest s₁ none rest s₂ ∧ Stream.Step k rest s₂ none rest s₃ ∧
      Stream.Step k rest s₃ (some m) rest s₄ := by
  have hlength : headerLength k.type k.readerOrder (m.take genericMessageSize) = m.length := by
    rw [headerLength_take, ← k.headerLength_eq, hm.2]
  have hhead : (m.take genericMessageSize).length = genericMessageSize := by
    rw [List.length_take]
    omega
  have hdrop : (m.drop genericMessageSize).length + genericMessageSize = m.length := by
    rw [List.length_drop]
    omega
  let s₁ : Stream := ⟨⟨k.type, none, 0, some m, 0, headerLength k.type k.writerOrder m⟩, [m], [],
    .init k.type, []⟩
  let s₂ : Stream := ⟨s₁.sender.afterWrite m.length, [m], m, .init k.type, []⟩
  let s₃ : Stream := ⟨s₁.sender.afterWrite m.length, [m], m.drop genericMessageSize,
    ⟨k.type, some (m.take genericMessageSize), m.length, none, 0, 0⟩, []⟩
  let s₄ : Stream := ⟨s₁.sender.afterWrite m.length, [m], [], ⟨k.type, none, 0, none, 0, 0⟩, [m]⟩
  have hwrite : s₁.sender.toWrite = m := by
    show ((m.take (headerLength k.type k.writerOrder m)).drop 0) = m
    rw [hm.2, List.take_length, List.drop_zero]
  refine ⟨s₁, s₂, s₃, s₄, .dequeue rfl rfl, ?_, ?_, ?_⟩
  · have hstep := @Stream.Step.write k rest s₁ m.length (by simp [s₁]) (by rw [hwrite])
    rw [hwrite, List.take_length] at hstep
    exact hstep
  · have hreturns : s₂.Returns (m.take genericMessageSize) (m.drop genericMessageSize) := by
      refine ⟨(List.take_append_drop _ _).symm, ?_, ?_⟩
      · intro hnil
        rw [hnil] at hhead
        cases hhead
      · rw [hhead]
        exact Nat.le_refl _
    refine .readAgain hreturns ?_
    simp only [SocketInfo.afterRead, s₂, SocketInfo.startRead, SocketInfo.init, Option.getD_some,
      List.nil_append, hhead, hlength]
    rw [if_neg (by omega), if_neg (by omega), if_neg (by omega), if_neg (by omega),
      if_pos (by omega)]
  · have hreturns : s₃.Returns (m.drop genericMessageSize) [] := by
      refine ⟨(List.append_nil _).symm, ?_, ?_⟩
      · intro hnil
        rw [hnil, List.length_nil] at hdrop
        omega
      · show (m.take genericMessageSize).length + _ ≤ m.length
        omega
    refine .readEnqueued hreturns ?_
    simp only [SocketInfo.afterRead, s₃, SocketInfo.startRead, Option.getD_some,
      List.take_append_drop]
    rw [if_neg (by omega), if_neg (by omega), if_pos (by omega)]

end EsalsaMpi
