import EsalsaMpi.Gateway.Socket
import EsalsaMpi.Library.Loops
import Mathlib.Algebra.Group.Nat.Defs

/-!
# A call of `nonblock_read_message`

The function reads until the socket would block or it has a message.  When it has read the
header, it asks for a block of the announced length, and calls itself to read the rest.

If the announced length is smaller than that of the header, there is nothing left to read.
The call that follows finds the 16 bytes of a header again, reads a length from behind the
block, which is now too short, and may call itself once more, for ever.  In all other cases
the function returns (`readsProperly_iff`).
-/

namespace EsalsaMpi

open Wire

/-- What `read` returns: bytes, of which there are none at the end of the stream, that the
socket would block, or another error. -/
inductive ReadResult where
  | bytes (b : Bytes)
  | wouldBlock
  | failed
deriving DecidableEq, Repr

/-- What `nonblock_read_message` returns: `EMPI_SUCCESS`, `more`, the socket and the message
that it has enqueued, or `EMPI_ERR_INTERN`. -/
inductive ReadReturn where
  | success (more : Bool) (info : SocketInfo) (enqueued : Option Bytes)
  | internalError
deriving DecidableEq

/-- The memory: whether `realloc` yields a block of the given size, and the length field
behind a block that is shorter than a header, in the call of the given depth. -/
structure Heap where
  reallocs : Nat → Bool
  behind : Nat → UInt32

/-- Where a call is: its socket, the number of calls of `read`, and how often it has called
itself. -/
structure ReadCall where
  info : SocketInfo
  reads : Nat
  depth : Nat
deriving DecidableEq

/-- A round of `nonblock_read_message`: a call of `read`, or what comes behind the loop.
Each call of `read` returns no more bytes than it is asked for. -/
def readRound (heap : Heap) (o : ByteOrder) (results : Nat → ReadResult) (s : ReadCall) :
    ReadCall ⊕ ReadReturn :=
  let got := s.info.inMessage.getD []
  if got.length < s.info.incount then
    match results s.reads with
    | .wouldBlock => .inr (.success false s.info none)
    | .failed => .inr .internalError
    | .bytes [] => .inr .internalError
    | .bytes (b :: chunk) =>
      let tmp := (b :: chunk).take (s.info.incount - got.length)
      .inl { s with
        info := { s.info with inMessage := some (got ++ tmp) }
        reads := s.reads + 1 }
  else if got.length < genericMessageSize then
    .inr .internalError
  else if got.length > genericMessageSize then
    .inr (.success true { s.info with inMessage := none, incount := 0 } (some got))
  else
    let len :=
      if s.depth = 0 then headerLength s.info.type o got else (heap.behind s.depth).toNat
    if len = genericMessageSize then
      .inr (.success true { s.info with inMessage := none, incount := genericMessageSize }
        (some got))
    else if heap.reallocs len then
      .inl { s with
        info := { s.info with incount := len }
        depth := s.depth + 1 }
    else
      .inr .internalError

/-- The start of a call. -/
def ReadCall.start (info : SocketInfo) : ReadCall := ⟨info.startRead, 0, 0⟩

/-- `nonblock_read_message`, with a number of rounds. -/
def nonblockReadMessage (heap : Heap) (o : ByteOrder) (results : Nat → ReadResult)
    (info : SocketInfo) (rounds : Nat) : Option ReadReturn :=
  Loops.run (readRound heap o results) rounds (.start info)

/-- The sockets that calls leave behind. -/
inductive ReadReachable (type : SocketType) (o : ByteOrder) : SocketInfo → Prop where
  | init : ReadReachable type o (.init type)
  | call {heap : Heap} {results : Nat → ReadResult} {info info' : SocketInfo} {rounds : Nat}
      {more : Bool} {m : Option Bytes} (h : ReadReachable type o info)
      (hreturns : nonblockReadMessage heap o results info rounds = some (.success more info' m)) :
      ReadReachable type o info'

/-- The results of `read` from number `n` on complete the header that begins with `got`. -/
inductive CompletesHeader (results : Nat → ReadResult) : Nat → Bytes → Bytes → Prop where
  | complete {n : Nat} {got : Bytes} (hlength : got.length = genericMessageSize) :
      CompletesHeader results n got got
  | read {n : Nat} {got chunk header : Bytes} {b : UInt8}
      (hshort : got.length < genericMessageSize) (hresult : results n = .bytes (b :: chunk))
      (h : CompletesHeader results (n + 1)
        (got ++ (b :: chunk).take (genericMessageSize - got.length)) header) :
      CompletesHeader results n got header

/-- The call reads a header that announces the length `len`. -/
def Announces (o : ByteOrder) (results : Nat → ReadResult) (info : SocketInfo) (len : Nat) :
    Prop :=
  info.startRead.incount = genericMessageSize ∧ ∃ header,
    CompletesHeader results 0 (info.startRead.inMessage.getD []) header ∧
      headerLength info.type o header = len

/-- **Reads properly**: whatever there is behind a block that is too short, the call returns,
and it returns an error if it reads a header that announces less than its own length.  That
no more than one message is enqueued is in the type of what is returned. -/
def ReadsProperly (reallocs : Nat → Bool) (o : ByteOrder) (results : Nat → ReadResult)
    (info : SocketInfo) : Prop :=
  ∀ behind, ∃ rounds result,
    nonblockReadMessage ⟨reallocs, behind⟩ o results info rounds = some result ∧
      ∀ len, Announces o results info len → len < genericMessageSize → result = .internalError

section Calls

variable {heap : Heap} {o : ByteOrder} {results : Nat → ReadResult} {type : SocketType}
  {info info' : SocketInfo} {s s' : ReadCall} {got header : Bytes} {len : Nat}

theorem headerLength_lt (type : SocketType) (o : ByteOrder) (m : Bytes) :
    headerLength type o m < 2 ^ 32 := by
  cases type
  · exact UInt32.toNat_lt _
  · exact UInt32.toNat_lt _

/-- A call of `read` that returns bytes. -/
theorem readRound_bytes {b : UInt8} {chunk : Bytes} (hgot : s.info.inMessage.getD [] = got)
    (hmore : got.length < s.info.incount) (hresult : results s.reads = .bytes (b :: chunk)) :
    readRound heap o results s = .inl { s with
      info := { s.info with
        inMessage := some (got ++ (b :: chunk).take (s.info.incount - got.length)) }
      reads := s.reads + 1 } := by
  simp only [readRound, hgot, if_pos hmore, hresult]

/-- The header is complete, and a block of its length is asked for. -/
theorem readRound_header (hgot : s.info.inMessage.getD [] = got)
    (hlength : got.length = genericMessageSize) (hincount : s.info.incount ≤ genericMessageSize)
    (hlen : (if s.depth = 0 then headerLength s.info.type o got
      else (heap.behind s.depth).toNat) = len) :
    readRound heap o results s =
      if len = genericMessageSize then
        .inr (.success true { s.info with inMessage := none, incount := genericMessageSize }
          (some got))
      else if heap.reallocs len then
        .inl { s with
          info := { s.info with incount := len }
          depth := s.depth + 1 }
      else
        .inr .internalError := by
  simp only [readRound, hgot, hlen]
  rw [if_neg (by omega), if_neg (by omega), if_neg (by omega)]

/-- The reads that complete the header lead to the call that has it. -/
theorem returns_header (hgot : s.info.inMessage = some got)
    (hincount : s.info.incount = genericMessageSize)
    (hheader : CompletesHeader results s.reads got header) :
    ∃ n, header.length = genericMessageSize ∧ ∀ r,
      Loops.Returns (readRound heap o results) s r ↔
        Loops.Returns (readRound heap o results)
          ⟨{ s.info with inMessage := some header }, n, s.depth⟩ r := by
  obtain ⟨info, reads, depth⟩ := s
  simp only at hgot hincount hheader
  induction hheader generalizing info with
  | @complete n got hlength =>
      refine ⟨n, hlength, fun r => ?_⟩
      rw [← hgot]
  | @read n got chunk header b hshort hresult h ih =>
      have hround := @readRound_bytes heap o results ⟨info, n, depth⟩ got b chunk
        (by rw [hgot]; rfl) (by rw [hincount]; exact hshort) hresult
      rw [hincount] at hround
      obtain ⟨n', hlength, hreturns⟩ := ih { info with
        inMessage := some (got ++ (b :: chunk).take (genericMessageSize - got.length)) }
          rfl hincount
      exact ⟨n', hlength, fun r => (Loops.returns_next_iff hround).trans (hreturns r)⟩

/-- **How a call goes on**: it has read bytes, or it has asked for a block. -/
theorem readRound_inl (hgot : s.info.inMessage = some got)
    (hround : readRound heap o results s = .inl s') :
    (∃ b chunk, got.length < s.info.incount ∧ results s.reads = .bytes (b :: chunk) ∧
      s' = { s with
        info := { s.info with
          inMessage := some (got ++ (b :: chunk).take (s.info.incount - got.length)) }
        reads := s.reads + 1 }) ∨
    (got.length = genericMessageSize ∧ s.info.incount ≤ genericMessageSize ∧
      ∃ len, (if s.depth = 0 then headerLength s.info.type o got
          else (heap.behind s.depth).toNat) = len ∧ len ≠ genericMessageSize ∧
        heap.reallocs len = true ∧
          s' = { s with
            info := { s.info with incount := len }
            depth := s.depth + 1 }) := by
  have hgetD : s.info.inMessage.getD [] = got := by rw [hgot, Option.getD_some]
  obtain ⟨len, hlen⟩ : ∃ len, (if s.depth = 0 then headerLength s.info.type o got
    else (heap.behind s.depth).toNat) = len := ⟨_, rfl⟩
  by_cases hmore : got.length < s.info.incount
  · left
    cases hresult : results s.reads with
    | wouldBlock => simp [readRound, hgetD, hmore, hresult] at hround
    | failed => simp [readRound, hgetD, hmore, hresult] at hround
    | bytes b =>
        cases b with
        | nil => simp [readRound, hgetD, hmore, hresult] at hround
        | cons b chunk =>
            rw [readRound_bytes hgetD hmore hresult] at hround
            cases hround
            exact ⟨b, chunk, hmore, rfl, rfl⟩
  · right
    by_cases hlength : got.length = genericMessageSize
    · rw [readRound_header hgetD hlength (by omega) hlen] at hround
      by_cases hne : len = genericMessageSize
      · rw [if_pos hne] at hround
        cases hround
      · rw [if_neg hne] at hround
        by_cases hrealloc : heap.reallocs len = true
        · rw [if_pos hrealloc] at hround
          cases hround
          exact ⟨hlength, by omega, len, hlen, hne, hrealloc, rfl⟩
        · rw [if_neg hrealloc] at hround
          cases hround
    · simp only [readRound, hgetD, if_neg hmore] at hround
      rcases Nat.lt_or_gt_of_ne hlength with hshort | hlong
      · rw [if_pos hshort] at hround
        cases hround
      · rw [if_neg (by omega), if_pos hlong] at hround
        cases hround

/-- How a call returns without an error: the socket would block, or there is a message. -/
theorem readRound_success (hgot : s.info.inMessage = some got) {more : Bool} {m : Option Bytes}
    (hround : readRound heap o results s = .inr (.success more info' m)) :
    (got.length < s.info.incount ∧ info' = s.info) ∨
      (info'.type = s.info.type ∧ info'.inMessage = none) := by
  have hgetD : s.info.inMessage.getD [] = got := by rw [hgot, Option.getD_some]
  by_cases hmore : got.length < s.info.incount
  · left
    simp only [readRound, hgetD, if_pos hmore] at hround
    split at hround
    · cases hround
      exact ⟨hmore, rfl⟩
    · cases hround
    · cases hround
    · cases hround
  · right
    by_cases hlength : got.length = genericMessageSize
    · rw [readRound_header hgetD hlength (by omega) rfl] at hround
      by_cases hne : (if s.depth = 0 then headerLength s.info.type o got
          else (heap.behind s.depth).toNat) = genericMessageSize
      · rw [if_pos hne] at hround
        cases hround
        exact ⟨rfl, rfl⟩
      · rw [if_neg hne] at hround
        cases hrealloc : heap.reallocs (if s.depth = 0 then headerLength s.info.type o got
          else (heap.behind s.depth).toNat) with
        | true =>
            rw [if_pos hrealloc] at hround
            cases hround
        | false =>
            rw [if_neg (by rw [hrealloc]; exact Bool.false_ne_true)] at hround
            cases hround
    · simp only [readRound, hgetD, if_neg hmore] at hround
      rcases Nat.lt_or_gt_of_ne hlength with hshort | hlong
      · rw [if_pos hshort] at hround
        cases hround
      · rw [if_neg (by omega), if_pos hlong] at hround
        cases hround
        exact ⟨rfl, rfl⟩

/-- Reading leaves the message that is being written alone. -/
def SocketInfo.SameOut (a b : SocketInfo) : Prop :=
  a.type = b.type ∧ a.outMessage = b.outMessage ∧ a.outpos = b.outpos ∧ a.outcount = b.outcount

theorem readRound_sameOut (h : s.info.SameOut info) :
    (∀ s', readRound heap o results s = .inl s' → s'.info.SameOut info) ∧
      ∀ more info' m, readRound heap o results s = .inr (.success more info' m) →
        info'.SameOut info := by
  unfold readRound
  constructor
  · intro s' hround
    dsimp only at hround
    split at hround
    · split at hround
      · cases hround
      · cases hround
      · cases hround
      · cases hround
        exact h
    · split at hround
      · cases hround
      · split at hround
        · cases hround
        · generalize (if s.depth = 0 then headerLength s.info.type o (s.info.inMessage.getD [])
            else (heap.behind s.depth).toNat) = len at hround
          split at hround
          · cases hround
          · split at hround
            · cases hround
              exact h
            · cases hround
  · intro more info' m hround
    dsimp only at hround
    split at hround
    · split at hround
      · cases hround
        exact h
      · cases hround
      · cases hround
      · cases hround
    · split at hround
      · cases hround
      · split at hround
        · cases hround
          exact h
        · generalize (if s.depth = 0 then headerLength s.info.type o (s.info.inMessage.getD [])
            else (heap.behind s.depth).toNat) = len at hround
          split at hround
          · cases hround
            exact h
          · split at hround
            · cases hround
            · cases hround

theorem nonblockReadMessage_sameOut {rounds : Nat} {more : Bool} {m : Option Bytes}
    (h : nonblockReadMessage heap o results info rounds = some (.success more info' m)) :
    info'.SameOut info := by
  have hstart : (ReadCall.start info).info.SameOut info := by
    unfold ReadCall.start SocketInfo.startRead
    cases info.inMessage with
    | none => exact ⟨rfl, rfl, rfl, rfl⟩
    | some _ => exact ⟨rfl, rfl, rfl, rfl⟩
  obtain ⟨s, hs, hlast⟩ := Loops.Returns.invariant (I := fun s => s.info.SameOut info) ⟨_, h⟩
    hstart fun s s' hs hround => (readRound_sameOut hs).1 s' hround
  exact (readRound_sameOut hs).2 more info' m hlast

/-- What holds in a call: it reads a header, or what comes behind one. -/
def InCall (type : SocketType) (s : ReadCall) : Prop :=
  s.info.type = type ∧ ∃ got, s.info.inMessage = some got ∧
    ((s.depth = 0 ∧ s.info.incount = genericMessageSize ∧ got.length ≤ genericMessageSize) ∨
      (s.info.incount < 2 ^ 32 ∧ genericMessageSize ≤ got.length))

theorem InCall.next (h : InCall type s) (hround : readRound heap o results s = .inl s') :
    InCall type s' := by
  obtain ⟨htype, got, hgot, hphase⟩ := h
  rcases readRound_inl hgot hround with
    ⟨b, chunk, hmore, _, rfl⟩ | ⟨hlength, _, len, hlen, _, _, rfl⟩
  · refine ⟨htype, _, rfl, ?_⟩
    rw [List.length_append, List.length_take]
    rcases hphase with ⟨hdepth, hincount, _⟩ | ⟨hlt, hle⟩
    · left
      exact ⟨hdepth, hincount, by omega⟩
    · right
      exact ⟨hlt, by omega⟩
  · refine ⟨htype, got, hgot, Or.inr ⟨?_, hlength.ge⟩⟩
    show len < 2 ^ 32
    rw [← hlen]
    split
    · exact headerLength_lt _ _ _
    · exact UInt32.toNat_lt _

/-- A socket between two calls. -/
structure Readable (type : SocketType) (info : SocketInfo) : Prop where
  type_eq : info.type = type
  message : ∀ got, info.inMessage = some got → got.length < info.incount ∧
    (info.incount = genericMessageSize ∨
      (info.incount < 2 ^ 32 ∧ genericMessageSize ≤ got.length))

theorem Readable.start (h : Readable type info) : InCall type (.start info) := by
  refine ⟨(SocketInfo.type_startRead info).trans h.type_eq, ?_⟩
  cases hmessage : info.inMessage with
  | none =>
      refine ⟨[], ?_, Or.inl ⟨rfl, ?_, Nat.zero_le _⟩⟩
      · simp [ReadCall.start, SocketInfo.startRead, hmessage]
      · simp [ReadCall.start, SocketInfo.startRead, hmessage]
  | some got =>
      have hstart : info.startRead = info := by rw [SocketInfo.startRead, hmessage]
      obtain ⟨hmore, hphase⟩ := h.message got hmessage
      refine ⟨got, ?_, ?_⟩
      · rw [ReadCall.start, hstart]
        exact hmessage
      · rw [ReadCall.start, hstart]
        rcases hphase with hincount | hbody
        · exact Or.inl ⟨rfl, hincount, by omega⟩
        · exact Or.inr hbody

/-- **Every call** leaves a socket behind that the next one can go on with. -/
theorem readable_of_reachable (h : ReadReachable type o info) : Readable type info := by
  induction h with
  | init => exact ⟨rfl, fun got hgot => by cases hgot⟩
  | call _ hreturns ih =>
      obtain ⟨s, ⟨htype, got, hgot, hphase⟩, hlast⟩ :=
        Loops.Returns.invariant ⟨_, hreturns⟩ ih.start fun s s' hs hround => hs.next hround
      rcases readRound_success hgot hlast with ⟨hmore, rfl⟩ | ⟨htype', hnone⟩
      · refine ⟨htype, fun got' hgot' => ?_⟩
        rw [hgot, Option.some.injEq] at hgot'
        subst hgot'
        refine ⟨hmore, ?_⟩
        rcases hphase with ⟨_, hincount, _⟩ | hbody
        · exact Or.inl hincount
        · exact Or.inr hbody
      · refine ⟨htype'.trans htype, fun got' hgot' => ?_⟩
        rw [hnone] at hgot'
        cases hgot'

/-- What holds in a call in which no header announces too little: while it reads the header,
the lengths that it may still find are those of the call; behind the header there is more to
read than a header. -/
def Ending (reallocs : Nat → Bool) (o : ByteOrder) (results : Nat → ReadResult) (s : ReadCall) :
    Prop :=
  ∃ got, s.info.inMessage = some got ∧
    ((s.depth = 0 ∧ s.info.incount = genericMessageSize ∧
        ∀ header, CompletesHeader results s.reads got header →
          genericMessageSize ≤ headerLength s.info.type o header ∨
            reallocs (headerLength s.info.type o header) = false) ∨
      (genericMessageSize < s.info.incount ∧ s.info.incount < 2 ^ 32))

/-- What is left to read, and the largest message on top of that as long as its length is not
known. -/
def ReadCall.left (s : ReadCall) : Nat :=
  s.info.incount - (s.info.inMessage.getD []).length +
    if s.info.incount = genericMessageSize then 2 ^ 32 else 0

/-- A round leaves less to read. -/
theorem Ending.next (h : Ending heap.reallocs o results s)
    (hround : readRound heap o results s = .inl s') :
    Ending heap.reallocs o results s' ∧ s'.left < s.left := by
  obtain ⟨got, hgot, hphase⟩ := h
  rcases readRound_inl hgot hround with
    ⟨b, chunk, hmore, hresult, rfl⟩ | ⟨hlength, hle, len, hlen, hne, hrealloc, rfl⟩
  · constructor
    · refine ⟨_, rfl, ?_⟩
      rcases hphase with ⟨hdepth, hincount, hheader⟩ | hbody
      · left
        refine ⟨hdepth, hincount, fun header hcompletes => ?_⟩
        rw [hincount] at hmore hcompletes
        exact hheader header (.read hmore hresult hcompletes)
      · exact Or.inr hbody
    · simp only [ReadCall.left, hgot, Option.getD_some, List.length_append, List.length_take,
        List.length_cons]
      omega
  · have hheader : s.depth = 0 ∧ s.info.incount = genericMessageSize ∧
        genericMessageSize < len := by
      rcases hphase with ⟨hdepth, hincount, hheader⟩ | ⟨hbody, _⟩
      · refine ⟨hdepth, hincount, ?_⟩
        rw [if_pos hdepth] at hlen
        rcases hheader got (.complete hlength) with hge | hfalse
        · omega
        · rw [hlen, hrealloc] at hfalse
          cases hfalse
      · omega
    obtain ⟨hdepth, hincount, hlt⟩ := hheader
    have hbound : len < 2 ^ 32 := by
      rw [← hlen, if_pos hdepth]
      exact headerLength_lt _ _ _
    refine ⟨⟨got, hgot, Or.inr ⟨hlt, hbound⟩⟩, ?_⟩
    simp only [ReadCall.left, hgot, Option.getD_some, if_neg hne, hincount, hlength, if_true]
    omega

/-- A call that reads no header with too small a length starts well. -/
theorem Readable.ending (h : Readable type info) {reallocs : Nat → Bool}
    (hannounces : ∀ len, Announces o results info len →
      genericMessageSize ≤ len ∨ reallocs len = false) :
    Ending reallocs o results (.start info) := by
  have hheader : info.startRead.incount = genericMessageSize →
      ∀ header, CompletesHeader results 0 (info.startRead.inMessage.getD []) header →
        genericMessageSize ≤ headerLength info.startRead.type o header ∨
          reallocs (headerLength info.startRead.type o header) = false := by
    intro hincount header hcompletes
    rw [SocketInfo.type_startRead]
    exact hannounces _ ⟨hincount, header, hcompletes, rfl⟩
  obtain ⟨_, got, hgot, ⟨hdepth, hincount, _⟩ | ⟨hlt, hle⟩⟩ := h.start
  · refine ⟨got, hgot, Or.inl ⟨hdepth, hincount, ?_⟩⟩
    have hgetD : info.startRead.inMessage.getD [] = got := by
      rw [show info.startRead.inMessage = some got from hgot, Option.getD_some]
    rw [← hgetD]
    exact hheader hincount
  · by_cases hincount : info.startRead.incount = genericMessageSize
    · refine ⟨got, hgot, Or.inl ⟨rfl, hincount, ?_⟩⟩
      have hgetD : info.startRead.inMessage.getD [] = got := by
        rw [show info.startRead.inMessage = some got from hgot, Option.getD_some]
      rw [← hgetD]
      exact hheader hincount
    · refine ⟨got, hgot, Or.inr ⟨?_, hlt⟩⟩
      have hmessage : info.inMessage = some got := by
        cases hcase : info.inMessage with
        | none =>
            rw [SocketInfo.startRead, hcase] at hincount
            exact absurd rfl hincount
        | some got' =>
            rw [ReadCall.start, SocketInfo.startRead, hcase] at hgot
            rw [← hcase]
            exact hgot
      have hmore := (h.message got hmessage).1
      rw [show (ReadCall.start info).info = info by
        rw [ReadCall.start, SocketInfo.startRead, hmessage]]
      omega

/-- The call from the header on. -/
theorem Announces.returns_iff (h : Announces o results info len) (heap : Heap) :
    ∃ header n, header.length = genericMessageSize ∧ headerLength info.type o header = len ∧
      ∀ r, Loops.Returns (readRound heap o results) (.start info) r ↔
        Loops.Returns (readRound heap o results)
          ⟨{ info.startRead with inMessage := some header }, n, 0⟩ r := by
  obtain ⟨hincount, header, hcompletes, hlen⟩ := h
  have hgot := SocketInfo.exists_inMessage_startRead info
  rw [hgot, Option.getD_some] at hcompletes
  obtain ⟨n, hlength, hreturns⟩ :=
    @returns_header heap o results (.start info) _ _ hgot hincount hcompletes
  exact ⟨header, n, hlength, hlen, hreturns⟩

/-- A header that announces too little, and a block for it: the call goes on for ever, if the
same length stands behind the block. -/
theorem Announces.not_stops (h : Announces o results info len)
    (hlt : len < genericMessageSize) (heap : Heap) (hrealloc : heap.reallocs len = true)
    (hbehind : ∀ depth, (heap.behind depth).toNat = len) :
    ¬ Loops.Stops (readRound heap o results) (.start info) := by
  obtain ⟨header, n, hlength, hlen, hreturns⟩ := h.returns_iff heap
  rintro ⟨r, hr⟩
  have hloop : ¬ Loops.Stops (readRound heap o results)
      ⟨{ info.startRead with inMessage := some header }, n, 0⟩ := by
    refine Loops.not_stops (J := fun s => s.info.inMessage = some header ∧
      s.info.incount ≤ genericMessageSize ∧
        (s.depth = 0 → headerLength s.info.type o header = len)) ⟨rfl, h.1.le, fun _ => ?_⟩ ?_
    · rw [← hlen]
      exact congrArg (headerLength · o header) (SocketInfo.type_startRead info)
    · rintro s ⟨hmessage, hincount, hannounced⟩
      have hround := @readRound_header heap o results s header len
        (by rw [hmessage, Option.getD_some]) hlength hincount (by
          split
          · next hdepth => exact hannounced hdepth
          · exact hbehind _)
      rw [if_neg (by omega), if_pos hrealloc] at hround
      exact ⟨_, hround, hmessage, hlt.le, fun hdepth => absurd hdepth (Nat.succ_ne_zero _)⟩
  exact hloop ⟨r, (hreturns r).mp hr⟩

/-- A header that announces too little, and no block for it: the call fails. -/
theorem Announces.returns_internalError (h : Announces o results info len)
    (hlt : len < genericMessageSize) (heap : Heap) (hrealloc : heap.reallocs len = false) :
    Loops.Returns (readRound heap o results) (.start info) .internalError := by
  obtain ⟨header, n, hlength, hlen, hreturns⟩ := h.returns_iff heap
  have hround := @readRound_header heap o results
    ⟨{ info.startRead with inMessage := some header }, n, 0⟩ header len rfl hlength h.1.le (by
      rw [if_pos rfl, ← hlen]
      exact congrArg (headerLength · o header) (SocketInfo.type_startRead info))
  rw [if_neg (by omega), if_neg (by rw [hrealloc]; exact Bool.false_ne_true)] at hround
  exact (hreturns _).mpr (.last hround)

/-- **A call reads properly** exactly if each header that it reads announces at least its own
length, or there is no block of the length that it announces. -/
theorem readsProperly_iff (h : ReadReachable type o info) (reallocs : Nat → Bool)
    (results : Nat → ReadResult) :
    ReadsProperly reallocs o results info ↔
      ∀ len, Announces o results info len →
        genericMessageSize ≤ len ∨ reallocs len = false := by
  constructor
  · intro hproperly len hannounces
    by_contra hbad
    rw [not_or, Nat.not_le, Bool.not_eq_false] at hbad
    obtain ⟨hlt, hrealloc⟩ := hbad
    have hword : (UInt32.ofNat len).toNat = len := by
      rw [UInt32.toNat_ofNat']
      exact Nat.mod_eq_of_lt (by unfold genericMessageSize at hlt; omega)
    obtain ⟨rounds, result, hreturns, _⟩ := hproperly fun _ => UInt32.ofNat len
    exact hannounces.not_stops hlt ⟨reallocs, _⟩ hrealloc (fun _ => hword)
      ⟨result, rounds, hreturns⟩
  · intro hannounces behind
    have hreadable := readable_of_reachable h
    obtain ⟨result, hresult⟩ := Loops.stops_of_measure ReadCall.left
      (hreadable.ending hannounces)
      fun s s' hs hround => @Ending.next ⟨reallocs, behind⟩ o results s s' hs hround
    obtain ⟨rounds, hreturns⟩ := hresult
    refine ⟨rounds, result, hreturns, fun len hlen hlt => ?_⟩
    rcases hannounces len hlen with hge | hfalse
    · omega
    · exact Loops.Returns.unique ⟨rounds, hreturns⟩
        (hlen.returns_internalError hlt ⟨reallocs, behind⟩ hfalse)

/-- The header of a message that announces the length `len`, between little-endian machines. -/
def announcing (len : UInt8) : Bytes :=
  [50, 0, 0, 0, 0, 0, 0, 0, 0, 0, 0, 0, len, 0, 0, 0]

/-- A header in two pieces that announces its own length. -/
theorem readsProperly_announcing_sixteen :
    ReadsProperly (· ≠ 0) .little
      (fun n => [.bytes ((announcing 16).take 7), .bytes ((announcing 16).drop 7)].getD n .wouldBlock)
      (.init .data) := by
  refine (readsProperly_iff .init _ _).mpr fun len hlen => Or.inl ?_
  obtain ⟨_, header, hcompletes, rfl⟩ := hlen
  cases hcompletes with
  | complete hlength => cases hlength
  | read _ hresult h =>
      cases hresult
      cases h with
      | complete hlength => cases hlength
      | read _ hresult h =>
          cases hresult
          cases h with
          | complete _ => decide
          | read hshort _ _ => exact absurd hshort (by decide)

/-- A header that announces 5 bytes, for which there is a block: the call does not return. -/
theorem not_readsProperly_announcing_five :
    ¬ ReadsProperly (· ≠ 0) .little
      (fun n => [.bytes (announcing 5)].getD n .wouldBlock) (.init .data) := by
  intro h
  have hannounces : Announces .little (fun n => [.bytes (announcing 5)].getD n .wouldBlock)
      (.init .data) 5 :=
    ⟨rfl, announcing 5, .read (by decide) rfl (.complete rfl), by decide⟩
  obtain ⟨rounds, result, hreturns, _⟩ := h fun _ => 5
  exact hannounces.not_stops (by decide) ⟨(· ≠ 0), fun _ => 5⟩ (by decide) (fun _ => rfl)
    ⟨result, rounds, hreturns⟩

end Calls

end EsalsaMpi
