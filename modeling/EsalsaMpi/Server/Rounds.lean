import EsalsaMpi.Server.World
import Mathlib.Logic.Relation

/-!
# Rounds of requests

All members send their requests on a communicator to the server, which stores
them in one row of slots and performs an operation each time the row is full.
A `Session` is the server with the requests on their way to it.  The order in
which they arrive is open: every request in flight may be delivered next.  A
member may go on to another communicator, but sends a request only after the
server has replied to its previous one.

The session also records what a verification needs to see: the requests that
each rank has issued on each communicator, and the rounds that the server has
performed.  `Session.Inv` ties slots, counter and requests in flight to the
position of each member; it holds in every reachable session
(`Session.inv_of_reachable`), and the results on rounds follow from it.
-/

namespace EsalsaMpi

open FirstOccurrence

namespace Server

/-- One operation that the server performed: the members of the communicator
at that time, the requests it combined and the replies it sent. -/
structure Round where
  members : List Pid
  requests : List CommunicatorRequest
  replies : List Reply
deriving DecidableEq, Repr

/-- The server, the requests in flight and what has happened so far.  `last`
is the communicator of the last request of a process, and the number of
rounds there when it was issued. -/
structure Session where
  server : State
  inFlight : List CommunicatorRequest
  last : Pid → Option (Nat × Nat)
  issued : Nat → Nat → List CommunicatorRequest
  rounds : Nat → List Round

namespace Session

/-- The server has replied to the last request of `pid`. -/
def Ready (s : Session) (pid : Pid) : Prop :=
  ∀ n k, s.last pid = some (n, k) →
    ∃ round, (s.rounds n)[k]? = some round ∧ ∃ m ∈ round.replies, m.destination = pid

/-- The member `req.source` sends `req`. -/
def issue (s : Session) (req : CommunicatorRequest) : Session where
  server := s.server
  inFlight := req :: s.inFlight
  last := fun pid =>
    if pid = req.source then
      some (req.communicator, (s.rounds req.communicator).length)
    else
      s.last pid
  issued := fun n r =>
    if n = req.communicator ∧ r = req.rank then s.issued n r ++ [req] else s.issued n r
  rounds := s.rounds

/-- The round that the delivery of `req` completes, if any. -/
def roundOf (s : Session) (req : CommunicatorRequest) : Outcome → List Round
  | .executed requests replies =>
    match s.server[req.communicator]? with
    | some (some c) => [⟨c.tables.members, requests, replies⟩]
    | _ => []
  | _ => []

variable (cfg : Config) (order : HashOrder)

/-- The receiver thread of a cluster delivers `req`. -/
def deliver (s : Session) (req : CommunicatorRequest)
    (rest : List CommunicatorRequest) : Session :=
  let result := deliverRequest cfg order s.server req
  { s with
    server := result.1
    inFlight := rest
    rounds := fun n =>
      if n = req.communicator then s.rounds n ++ s.roundOf req result.2 else s.rounds n }

/-- The steps of a session. -/
inductive Step : Session → Session → Prop where
  | issue {s : Session} {c : Communicator} {req : CommunicatorRequest}
      (hlive : s.server[req.communicator]? = some (some c))
      (hmember : c.tables.members[req.rank]? = some req.source)
      (hready : s.Ready req.source)
      (hclient : req.operation.FromClient cfg req.communicator) :
      Step s (s.issue req)
  | deliver {s : Session} {req : CommunicatorRequest}
      {before after : List CommunicatorRequest}
      (hflight : s.inFlight = before ++ req :: after) :
      Step s (s.deliver cfg order req (before ++ after))

end Session

namespace Session

/-- A session in which nobody has sent anything. -/
def start (server : State) : Session where
  server := server
  inFlight := []
  last := fun _ => none
  issued := fun _ _ => []
  rounds := fun _ => []

/-- The sessions of a run of the server. -/
def Reachable (cfg : Config) (order : HashOrder) (s : Session) : Prop :=
  ∃ server, initCommWorld cfg = some server ∧
    Relation.ReflTransGen (Step cfg order) (start server) s

/-- The request `m` is the next one of its rank, beyond the rounds performed. -/
structure Outstanding (s : Session) (m : CommunicatorRequest) : Prop where
  length_eq : (s.issued m.communicator m.rank).length =
    (s.rounds m.communicator).length + 1
  next : (s.issued m.communicator m.rank)[(s.rounds m.communicator).length]? = some m

/-- A request as the member of `c` with its rank sends it. -/
structure OfMember (cfg : Config) (c : Communicator) (m : CommunicatorRequest) : Prop where
  communicator : m.communicator = c.number
  source : c.tables.members[m.rank]? = some m.source
  client : m.operation.FromClient cfg c.number

/-- The invariant of one communicator of the server. -/
structure CommInv (cfg : Config) (s : Session) (n : Nat) (c : Communicator) : Prop where
  number : c.number = n
  valid : cfg.Valid c.tables.members
  length_messages : c.messages.length = c.size
  participants : c.participants = c.messages.countP Option.isSome
  slot : ∀ (r : Nat) m, c.messages[r]? = some (some m) →
    m.rank = r ∧ OfMember cfg c m ∧ s.Outstanding m
  position : ∀ r < c.size, (s.issued n r).length = (s.rounds n).length ∨
    (s.issued n r).length = (s.rounds n).length + 1
  outside : ∀ r, c.size ≤ r → s.issued n r = []
  waiting : ∀ (r : Nat) pid, c.tables.members[r]? = some pid →
    (s.issued n r).length = (s.rounds n).length + 1 →
    s.last pid = some (n, (s.rounds n).length)

/-- A request in flight: its slot is free and it is the next of its rank. -/
structure FlightInv (cfg : Config) (s : Session) (m : CommunicatorRequest)
    (c : Communicator) : Prop where
  live : s.server[m.communicator]? = some (some c)
  free : c.messages[m.rank]? = some none
  member : OfMember cfg c m
  outstanding : s.Outstanding m

/-- What is known of a round performed on communicator `n` as number `k`. -/
structure RoundInv (s : Session) (n k : Nat) (round : Round) : Prop where
  length_eq : round.requests.length = round.members.length
  requests : ∀ r, round.requests[r]? = (s.issued n r)[k]?
  replies : Agree round.requests → ∀ pid ∈ round.members,
    (round.replies.map Reply.destination).count pid = 1

/-- **The invariant of a session.** -/
structure Inv (cfg : Config) (s : Session) : Prop where
  comm : ∀ (n : Nat) c, s.server[n]? = some (some c) → CommInv cfg s n c
  absent : ∀ n, s.server.length ≤ n → (∀ r, s.issued n r = []) ∧ s.rounds n = []
  flight : ∀ m ∈ s.inFlight, ∃ c, FlightInv cfg s m c
  flight_nodup : (s.inFlight.map fun m => (m.communicator, m.rank)).Nodup
  round : ∀ (n k : Nat) round, (s.rounds n)[k]? = some round → RoundInv s n k round

variable {cfg : Config} {order : HashOrder} {s s' : Session} {c : Communicator}
  {m req : CommunicatorRequest} {n : Nat}

/-- Only what happens on its own communicator and rank matters to a request. -/
theorem Outstanding.congr (h : s.Outstanding m)
    (hissued : s'.issued m.communicator m.rank = s.issued m.communicator m.rank)
    (hrounds : s'.rounds m.communicator = s.rounds m.communicator) :
    s'.Outstanding m := by
  constructor
  · rw [hissued, hrounds]
    exact h.length_eq
  · rw [hissued, hrounds]
    exact h.next

/-- Only what happens on it matters to a communicator. -/
theorem CommInv.congr (h : CommInv cfg s n c)
    (hissued : ∀ r, s'.issued n r = s.issued n r) (hrounds : s'.rounds n = s.rounds n)
    (hlast : s'.last = s.last) : CommInv cfg s' n c where
  number := h.number
  valid := h.valid
  length_messages := h.length_messages
  participants := h.participants
  slot := by
    intro r m hm
    obtain ⟨hrank, hmember, houtstanding⟩ := h.slot r m hm
    have hcomm : m.communicator = n := hmember.communicator.trans h.number
    exact ⟨hrank, hmember, houtstanding.congr (hcomm ▸ hissued m.rank) (hcomm ▸ hrounds)⟩
  position := by
    intro r hr
    rw [hissued, hrounds]
    exact h.position r hr
  outside := by
    intro r hr
    rw [hissued]
    exact h.outside r hr
  waiting := by
    intro r pid hpid hlength
    rw [hissued, hrounds] at hlength
    rw [hlast, hrounds]
    exact h.waiting r pid hpid hlength

/-- A communicator that was just created: nobody has used it. -/
theorem CommInv.fresh {pids : List Pid} (hvalid : cfg.Valid pids)
    (hissued : ∀ r, s.issued n r = []) (hrounds : s.rounds n = []) :
    CommInv cfg s n (Communicator.fresh n (tablesSpec pids)) where
  number := rfl
  valid := hvalid
  length_messages := List.length_replicate
  participants := by simp [Communicator.fresh, List.countP_replicate]
  slot := by
    intro r m hm
    simp [Communicator.fresh, List.getElem?_replicate] at hm
  position := by
    intro r _
    left
    rw [hissued, hrounds]
    rfl
  outside := fun r _ => hissued r
  waiting := by
    intro r pid _ hlength
    rw [hissued, hrounds] at hlength
    simp at hlength

/-- **A member that may send a request has none outstanding.**  Its last
request has been answered, so the round it belonged to is over. -/
theorem Inv.length_issued_of_ready (hinv : Inv cfg s)
    (hlive : s.server[req.communicator]? = some (some c))
    (hmember : c.tables.members[req.rank]? = some req.source)
    (hready : s.Ready req.source) :
    (s.issued req.communicator req.rank).length =
      (s.rounds req.communicator).length := by
  have hcomm := hinv.comm _ _ hlive
  have hlt : req.rank < c.size := (List.getElem?_eq_some_iff.mp hmember).1
  rcases hcomm.position _ hlt with h | h
  · exact h
  · have hlast := hcomm.waiting _ _ hmember h
    obtain ⟨round, hround, _⟩ := hready _ _ hlast
    have := (List.getElem?_eq_some_iff.mp hround).1
    omega

/-- Issuing a request on a rank with none outstanding leaves the outstanding
requests outstanding. -/
theorem Outstanding.issue (h : s.Outstanding m)
    (hlength : (s.issued req.communicator req.rank).length =
      (s.rounds req.communicator).length) :
    (s.issue req).Outstanding m := by
  refine h.congr ?_ rfl
  by_cases hsame : m.communicator = req.communicator ∧ m.rank = req.rank
  · have := h.length_eq
    rw [hsame.1, hsame.2] at this
    omega
  · simp [Session.issue, hsame]

/-- Issuing a request keeps the invariant of every communicator. -/
theorem CommInv.issue (h : CommInv cfg s n c) {c' : Communicator}
    (hlive : s.server[n]? = some (some c))
    (hlive' : s.server[req.communicator]? = some (some c'))
    (hmember : c'.tables.members[req.rank]? = some req.source)
    (hready : s.Ready req.source)
    (hlength : (s.issued req.communicator req.rank).length =
      (s.rounds req.communicator).length) :
    CommInv cfg (s.issue req) n c where
  number := h.number
  valid := h.valid
  length_messages := h.length_messages
  participants := h.participants
  slot := by
    intro r m hm
    obtain ⟨hrank, hmember, houtstanding⟩ := h.slot r m hm
    exact ⟨hrank, hmember, houtstanding.issue hlength⟩
  position := by
    intro r hr
    by_cases hsame : n = req.communicator ∧ r = req.rank
    · right
      simp [Session.issue, hsame, hlength]
    · simpa [Session.issue, hsame] using h.position r hr
  outside := by
    intro r hr
    by_cases hsame : n = req.communicator ∧ r = req.rank
    · obtain ⟨rfl, rfl⟩ := hsame
      rw [hlive] at hlive'
      cases hlive'
      have := (List.getElem?_eq_some_iff.mp hmember).1
      rw [Communicator.size] at hr
      omega
    · simpa [Session.issue, hsame] using h.outside r hr
  waiting := by
    intro r pid hpid hwaits
    by_cases hsame : n = req.communicator ∧ r = req.rank
    · obtain ⟨rfl, rfl⟩ := hsame
      rw [hlive] at hlive'
      cases hlive'
      rw [hmember] at hpid
      cases hpid
      simp [Session.issue]
    · have hwaits' : (s.issued n r).length = (s.rounds n).length + 1 := by
        simpa [Session.issue, hsame] using hwaits
      have hlast := h.waiting r pid hpid hwaits'
      have hother : pid ≠ req.source := by
        rintro rfl
        obtain ⟨round, hround, _⟩ := hready _ _ hlast
        have := (List.getElem?_eq_some_iff.mp hround).1
        omega
      simpa [Session.issue, hother] using hlast

/-- A request of the past is not touched by a new one. -/
theorem RoundInv.issue {k : Nat} {round : Round} (h : RoundInv s n k round)
    (hround : (s.rounds n)[k]? = some round)
    (hlength : (s.issued req.communicator req.rank).length =
      (s.rounds req.communicator).length) :
    RoundInv (s.issue req) n k round where
  length_eq := h.length_eq
  requests := by
    intro r
    by_cases hsame : n = req.communicator ∧ r = req.rank
    · have hk := (List.getElem?_eq_some_iff.mp hround).1
      have hissued : (s.issue req).issued n r = s.issued n r ++ [req] := by
        simp [Session.issue, hsame]
      have hk' : k < (s.issued n r).length := by
        rw [hsame.1, hsame.2, hlength, ← hsame.1]
        exact hk
      rw [hissued, List.getElem?_append_left hk']
      exact h.requests r
    · simpa [Session.issue, hsame] using h.requests r
  replies := h.replies

/-- Issuing a request keeps the invariant. -/
theorem inv_issue (hinv : Inv cfg s)
    (hlive : s.server[req.communicator]? = some (some c))
    (hmember : c.tables.members[req.rank]? = some req.source)
    (hready : s.Ready req.source)
    (hclient : req.operation.FromClient cfg req.communicator) :
    Inv cfg (s.issue req) := by
  have hlength := hinv.length_issued_of_ready hlive hmember hready
  have hcomm := hinv.comm _ _ hlive
  have hnew : (s.issue req).Outstanding req := by
    constructor
    · simp [Session.issue, hlength]
    · simp [Session.issue, ← hlength]
  -- whatever is outstanding belongs to another rank
  have hother : ∀ m, s.Outstanding m →
      ¬ (m.communicator = req.communicator ∧ m.rank = req.rank) := by
    intro m hm hsame
    have := hm.length_eq
    rw [hsame.1, hsame.2] at this
    omega
  refine ⟨?_, ?_, ?_, ?_, ?_⟩
  · intro n c' hc'
    exact (hinv.comm n c' hc').issue hc' hlive hmember hready hlength
  · intro n hn
    have hne : n ≠ req.communicator := by
      rintro rfl
      have := (List.getElem?_eq_some_iff.mp hlive).1
      exact absurd hn (by simpa [Session.issue] using this)
    simpa [Session.issue, hne] using hinv.absent n hn
  · intro m hm
    rcases List.mem_cons.mp hm with rfl | hm
    · have hfree : c.messages[m.rank]? = some none := by
        have hlt : m.rank < c.messages.length := by
          rw [hcomm.length_messages]
          exact (List.getElem?_eq_some_iff.mp hmember).1
        cases hslot : c.messages[m.rank]? with
        | none =>
            have := List.getElem?_eq_none_iff.mp hslot
            omega
        | some slot =>
            cases slot with
            | none => rfl
            | some other =>
                obtain ⟨hrank, hof, houtstanding⟩ := hcomm.slot _ _ hslot
                have hsame := hof.communicator.trans hcomm.number
                exact absurd ⟨hsame, hrank⟩ (hother other houtstanding)
      exact ⟨c, hlive, hfree,
        ⟨hcomm.number.symm, hmember, hcomm.number.symm ▸ hclient⟩, hnew⟩
    · obtain ⟨c', hflight⟩ := hinv.flight m hm
      exact ⟨c', hflight.live, hflight.free, hflight.member,
        hflight.outstanding.issue hlength⟩
  · have hfirst : (req.communicator, req.rank) ∉
        s.inFlight.map fun m => (m.communicator, m.rank) := by
      intro hmem
      obtain ⟨m, hm, heq⟩ := List.mem_map.mp hmem
      obtain ⟨_, hflight⟩ := hinv.flight m hm
      exact hother m hflight.outstanding (Prod.mk.inj heq)
    exact List.nodup_cons.mpr ⟨hfirst, hinv.flight_nodup⟩
  · intro n k round hround
    exact (hinv.round n k round hround).issue hround hlength

/-- Delivering a request to a free slot. -/
theorem deliverRequest_of_free {st : State}
    (hlive : st[req.communicator]? = some (some c))
    (hfree : c.messages[req.rank]? = some none) :
    deliverRequest cfg order st req =
      if (c.store req).participants = c.size then
        let result := processRequest cfg order
          (st.set c.number (some (c.store req).reset)) (c.store req) (c.store req).requests
        (result.1, .executed (c.store req).requests result.2)
      else
        (st.set c.number (some (c.store req)), .stored) := by
  rw [deliverRequest, hlive]
  simp only [Communicator.deliverRequest, hfree]

/-- Storing a request from flight keeps the invariant of its communicator. -/
theorem CommInv.store (h : CommInv cfg s n c) (hflight : FlightInv cfg s req c) :
    CommInv cfg s n (c.store req) where
  number := h.number
  valid := h.valid
  length_messages := by
    rw [Communicator.store, List.length_set]
    exact h.length_messages
  participants := by
    obtain ⟨hlt, hfree⟩ := List.getElem?_eq_some_iff.mp hflight.free
    simp [Communicator.store, List.countP_set, hlt, hfree, h.participants]
  slot := by
    intro r m hm
    by_cases hr : r = req.rank
    · have hlt := (List.getElem?_eq_some_iff.mp hflight.free).1
      have heq : req = m := by simpa [Communicator.store, hr, hlt] using hm
      subst heq
      have hmember : OfMember cfg (c.store req) req :=
        ⟨hflight.member.communicator, hflight.member.source, hflight.member.client⟩
      exact ⟨hr.symm, hmember, hflight.outstanding⟩
    · have hold : c.messages[r]? = some (some m) := by
        rw [← hm, Communicator.store, List.getElem?_set_ne (Ne.symm hr)]
      obtain ⟨hrank, hmember, houtstanding⟩ := h.slot r m hold
      exact ⟨hrank, ⟨hmember.communicator, hmember.source, hmember.client⟩, houtstanding⟩
  position := h.position
  outside := h.outside
  waiting := h.waiting

/-- The requests of a full row of slots, slot by slot. -/
theorem getElem?_requests (hfull : ∀ slot ∈ c.messages, slot.isSome = true)
    (r : Nat) : c.requests[r]? = c.messages[r]?.join := by
  have hmap : ∀ slots : List (Option CommunicatorRequest),
      (∀ slot ∈ slots, slot.isSome = true) → (slots.filterMap id).map some = slots := by
    intro slots hslots
    induction slots with
    | nil => rfl
    | cons slot slots ih =>
        obtain ⟨m, rfl⟩ := Option.isSome_iff_exists.mp (hslots slot List.mem_cons_self)
        have hrest := ih fun other hother => hslots other (List.mem_cons_of_mem _ hother)
        rw [List.filterMap_cons_some (show id (some m) = some m from rfl), List.map_cons, hrest]
  have hc := congrArg (fun l : List (Option CommunicatorRequest) => l[r]?)
    (hmap c.messages hfull)
  simp only [List.getElem?_map] at hc
  rw [← hc, Communicator.requests]
  cases (c.messages.filterMap id)[r]? <;> rfl

/-- A full communicator holds a round: the next request of every member. -/
theorem CommInv.isRound (h : CommInv cfg s n c) (hfull : c.participants = c.size) :
    c.IsRound c.requests ∧
      ∀ (r : Nat) m, c.requests[r]? = some m →
        m.rank = r ∧ OfMember cfg c m ∧ s.Outstanding m := by
  have hslots : ∀ slot ∈ c.messages, slot.isSome = true := by
    apply List.countP_eq_length.mp
    rw [← h.participants, hfull, h.length_messages]
  have hrequest : ∀ (r : Nat) m, c.requests[r]? = some m →
      m.rank = r ∧ OfMember cfg c m ∧ s.Outstanding m := by
    intro r m hm
    rw [getElem?_requests hslots, Option.join_eq_some_iff] at hm
    exact h.slot r m hm
  refine ⟨⟨?_, ?_, ?_⟩, hrequest⟩
  · have hlength : (c.messages.filterMap id).length = c.messages.length := by
      rw [List.length_filterMap_eq_countP]
      exact List.countP_eq_length.mpr hslots
    rw [Communicator.requests, hlength, h.length_messages]
  · intro r m hm
    exact (hrequest r m hm).1
  · intro r m hm
    obtain ⟨hrank, hmember, _⟩ := hrequest r m hm
    rw [← hrank]
    exact hmember.source

/-- Storing a request that does not complete a round keeps the invariant. -/
theorem inv_store (hinv : Inv cfg s) (hflight : FlightInv cfg s req c)
    {rest : List CommunicatorRequest} (hrest : ∀ m ∈ rest, m ∈ s.inFlight)
    (hnodup : (rest.map fun m => (m.communicator, m.rank)).Nodup)
    (hother : ∀ m ∈ rest, ¬ (m.communicator = req.communicator ∧ m.rank = req.rank))
    (hserver : s'.server = s.server.set req.communicator (some (c.store req)))
    (hinFlight : s'.inFlight = rest) (hlast : s'.last = s.last)
    (hissued : s'.issued = s.issued) (hrounds : s'.rounds = s.rounds) :
    Inv cfg s' := by
  have hlt := (List.getElem?_eq_some_iff.mp hflight.live).1
  have hcongr : ∀ n c, CommInv cfg s n c → CommInv cfg s' n c := fun n c h =>
    h.congr (by simp [hissued]) (by simp [hrounds]) hlast
  refine ⟨?_, ?_, ?_, ?_, ?_⟩
  · intro n c' hc'
    by_cases hn : n = req.communicator
    · have heq : c.store req = c' := by simpa [hserver, hn, hlt] using hc'
      subst heq
      exact hcongr _ _ (hn ▸ (hinv.comm _ _ hflight.live).store hflight)
    · rw [hserver, List.getElem?_set_ne (Ne.symm hn)] at hc'
      exact hcongr _ _ (hinv.comm n c' hc')
  · intro n hn
    rw [hserver, List.length_set] at hn
    rw [hissued, hrounds]
    exact hinv.absent n hn
  · intro m hm
    rw [hinFlight] at hm
    obtain ⟨c', hm'⟩ := hinv.flight m (hrest m hm)
    have houtstanding : s'.Outstanding m :=
      hm'.outstanding.congr (by simp [hissued]) (by simp [hrounds])
    by_cases hn : m.communicator = req.communicator
    · have hc : c = c' := by
        have hlive := hm'.live
        rw [hn, hflight.live] at hlive
        exact Option.some.inj (Option.some.inj hlive)
      subst hc
      have hrank : req.rank ≠ m.rank := fun h => hother m hm ⟨hn, h.symm⟩
      refine ⟨c.store req, ?_, ?_, ?_, houtstanding⟩
      · simp [hserver, hn, hlt]
      · rw [Communicator.store, List.getElem?_set_ne hrank]
        exact hm'.free
      · exact ⟨hm'.member.communicator, hm'.member.source, hm'.member.client⟩
    · refine ⟨c', ?_, hm'.free, hm'.member, houtstanding⟩
      rw [hserver, List.getElem?_set_ne (Ne.symm hn)]
      exact hm'.live
  · rw [hinFlight]
    exact hnodup
  · intro n k round hround
    rw [hrounds] at hround
    have h := hinv.round n k round hround
    exact ⟨h.length_eq, by rw [hissued]; exact h.requests, h.replies⟩

/-- The communicators after an operation on communicator `n`: its own, if it
was not freed, the others, and new ones. -/
theorem live_after_operation {base st : State} {c₀ c' : Communicator} {n n' : Nat}
    (hn : base[n]? = some (some c₀))
    (hst : Appends cfg base st ∨ st = base.set n none)
    (hlive : st[n']? = some (some c')) :
    (n' = n ∧ c' = c₀) ∨ (n' ≠ n ∧ base[n']? = some (some c')) ∨
      (base.length ≤ n' ∧ ∃ pids, cfg.Valid pids ∧
        c' = Communicator.fresh n' (tablesSpec pids)) := by
  have hlt := (List.getElem?_eq_some_iff.mp hn).1
  rcases hst with ⟨rows, hrows, rfl⟩ | rfl
  · by_cases hn' : n' < base.length
    · rw [List.getElem?_append_left hn'] at hlive
      by_cases heq : n' = n
      · rw [heq, hn] at hlive
        exact Or.inl ⟨heq, (Option.some.inj (Option.some.inj hlive)).symm⟩
      · exact Or.inr (Or.inl ⟨heq, hlive⟩)
    · have hge : base.length ≤ n' := Nat.le_of_not_lt hn'
      rw [List.getElem?_append_right hge, List.getElem?_mapIdx] at hlive
      obtain ⟨pids, hpids, heq⟩ := Option.map_eq_some_iff.mp hlive
      rw [Nat.add_sub_of_le hge] at heq
      exact Or.inr (Or.inr ⟨hge, pids, hrows pids (List.mem_of_getElem? hpids),
        (Option.some.inj heq).symm⟩)
  · have hne : n' ≠ n := by
      rintro rfl
      simp [hlt] at hlive
    rw [List.getElem?_set_ne (Ne.symm hne)] at hlive
    exact Or.inr (Or.inl ⟨hne, hlive⟩)

/-- Communicators other than the one operated on stay as they are. -/
theorem getElem?_after_operation {base st : State} {n n' : Nat} (hne : n' ≠ n)
    (hst : Appends cfg base st ∨ st = base.set n none) (hlt : n' < base.length) :
    st[n']? = base[n']? := by
  rcases hst with ⟨rows, _, rfl⟩ | rfl
  · exact List.getElem?_append_left hlt
  · exact List.getElem?_set_ne (Ne.symm hne)

/-- Completing a round keeps the invariant: every member moves on by one. -/
theorem inv_execute (hinv : Inv cfg s) (hflight : FlightInv cfg s req c)
    {rest : List CommunicatorRequest} {result : State × List Reply}
    (hfull : (c.store req).participants = c.size)
    (hrest : ∀ m ∈ rest, m ∈ s.inFlight)
    (hnodup : (rest.map fun m => (m.communicator, m.rank)).Nodup)
    (hother : ∀ m ∈ rest, ¬ (m.communicator = req.communicator ∧ m.rank = req.rank))
    (hresult : processRequest cfg order
        (s.server.set c.number (some (c.store req).reset)) (c.store req)
        (c.store req).requests = result)
    (hserver : s'.server = result.1) (hinFlight : s'.inFlight = rest)
    (hlast : s'.last = s.last) (hissued : s'.issued = s.issued)
    (hrounds : s'.rounds req.communicator = s.rounds req.communicator ++
      [⟨c.tables.members, (c.store req).requests, result.2⟩])
    (hrounds' : ∀ n, n ≠ req.communicator → s'.rounds n = s.rounds n) :
    Inv cfg s' := by
  have hlt := (List.getElem?_eq_some_iff.mp hflight.live).1
  have hcomm := (hinv.comm _ _ hflight.live).store hflight
  have hnumber : c.number = req.communicator := hcomm.number
  obtain ⟨hround, hrequest⟩ := hcomm.isRound hfull
  have hclient : ∀ m ∈ (c.store req).requests,
      m.operation.FromClient cfg (c.store req).number := by
    intro m hm
    obtain ⟨r, hr⟩ := List.getElem?_of_mem hm
    exact (hrequest r m hr).2.1.client
  rw [hnumber] at hresult
  have hstate := @processRequest_state cfg order
    (s.server.set req.communicator (some (c.store req).reset)) _ _ hround hcomm.valid hclient
  rw [hresult, ← hserver, hcomm.number] at hstate
  have hbase : (s.server.set req.communicator (some (c.store req).reset))[req.communicator]? =
      some (some (c.store req).reset) := by simp [hlt]
  -- the next request of a rank is the one in its slot
  have hnext : ∀ r, (s.issued req.communicator r)[(s.rounds req.communicator).length]? =
        (c.store req).requests[r]? ∧
      (r < c.size → (s.issued req.communicator r).length =
        (s.rounds req.communicator).length + 1) := by
    intro r
    cases hr : (c.store req).requests[r]? with
    | none =>
        have hle : c.size ≤ r :=
          hround.length_eq ▸ List.getElem?_eq_none_iff.mp hr
        rw [hcomm.outside r hle]
        exact ⟨rfl, fun h => absurd h (Nat.not_lt.mpr hle)⟩
    | some m =>
        obtain ⟨hrank, hmember, houtstanding⟩ := hrequest r m hr
        have hm : m.communicator = req.communicator := hmember.communicator.trans hnumber
        have hlength := houtstanding.length_eq
        have hnext := houtstanding.next
        rw [hm, hrank] at hlength hnext
        exact ⟨hnext, fun _ => hlength⟩
  have hold : ∀ n c, n ≠ req.communicator → CommInv cfg s n c → CommInv cfg s' n c :=
    fun n c hn h => h.congr (by simp [hissued]) (hrounds' n hn) hlast
  refine ⟨?_, ?_, ?_, ?_, ?_⟩
  · intro n c' hc'
    rcases live_after_operation hbase hstate hc' with ⟨rfl, rfl⟩ | ⟨hn, hlive⟩ | ⟨hn, pids, hvalid, rfl⟩
    · exact
        { number := hnumber
          valid := hcomm.valid
          length_messages := List.length_replicate
          participants := by simp [Communicator.reset, List.countP_replicate]
          slot := by
            intro r m hm
            simp [Communicator.reset, List.getElem?_replicate] at hm
          position := by
            intro r hr
            left
            rw [hissued, hrounds, (hnext r).2 hr, List.length_append, List.length_singleton]
          outside := by
            intro r hr
            rw [hissued]
            exact hcomm.outside r hr
          waiting := by
            intro r pid hpid hwaits
            have hr : r < c.size := (List.getElem?_eq_some_iff.mp hpid).1
            rw [hissued, hrounds, (hnext r).2 hr, List.length_append,
              List.length_singleton] at hwaits
            omega }
    · rw [List.getElem?_set_ne (Ne.symm hn)] at hlive
      exact hold n c' hn (hinv.comm n c' hlive)
    · rw [List.length_set] at hn
      have habsent := hinv.absent n hn
      have hne : n ≠ req.communicator := by omega
      apply CommInv.fresh hvalid
      · rw [hissued]
        exact habsent.1
      · rw [hrounds' n hne]
        exact habsent.2
  · intro n hn
    have hle : s.server.length ≤ s'.server.length := by
      rcases hstate with ⟨rows, _, h⟩ | h
      · simp [h]
      · simp [h]
    have hne : n ≠ req.communicator := by omega
    rw [hissued, hrounds' n hne]
    exact hinv.absent n (Nat.le_trans hle hn)
  · intro m hm
    rw [hinFlight] at hm
    obtain ⟨c', hm'⟩ := hinv.flight m (hrest m hm)
    -- a request on the same communicator would find its slot taken
    have hn : m.communicator ≠ req.communicator := by
      intro hn
      have hc : c = c' := by
        have hlive := hm'.live
        rw [hn, hflight.live] at hlive
        exact Option.some.inj (Option.some.inj hlive)
      subst hc
      have hslot : (c.store req).messages[m.rank]? = some none := by
        rw [Communicator.store,
          List.getElem?_set_ne (fun h => hother m hm ⟨hn, h.symm⟩)]
        exact hm'.free
      have hall : ∀ slot ∈ (c.store req).messages, slot.isSome = true := by
        apply List.countP_eq_length.mp
        rw [← hcomm.participants, hfull, hcomm.length_messages]
        rfl
      exact absurd (hall none (List.mem_of_getElem? hslot)) (by simp)
    have hlt' : m.communicator < s.server.length :=
      (List.getElem?_eq_some_iff.mp hm'.live).1
    refine ⟨c', ?_, hm'.free, hm'.member,
      hm'.outstanding.congr (by simp [hissued]) (hrounds' _ hn)⟩
    rw [getElem?_after_operation hn hstate (by simpa using hlt'),
      List.getElem?_set_ne (Ne.symm hn)]
    exact hm'.live
  · rw [hinFlight]
    exact hnodup
  · intro n k round hk
    by_cases hn : n = req.communicator
    · subst hn
      rw [hrounds] at hk
      by_cases hlast : k < (s.rounds req.communicator).length
      · rw [List.getElem?_append_left hlast] at hk
        have h := hinv.round _ k round hk
        exact ⟨h.length_eq, by rw [hissued]; exact h.requests, h.replies⟩
      · have hk' : k = (s.rounds req.communicator).length := by
          have := (List.getElem?_eq_some_iff.mp hk).1
          simp at this
          omega
        subst hk'
        rw [List.getElem?_append_right (Nat.le_refl _), Nat.sub_self] at hk
        cases hk
        refine ⟨hround.length_eq, ?_, ?_⟩
        · intro r
          rw [hissued]
          exact (hnext r).1.symm
        · intro hagree pid hpid
          have hcount := @processRequest_destinations cfg order
            (s.server.set req.communicator (some (c.store req).reset)) _ _ hround
            hcomm.valid hagree hclient pid hpid
          rwa [hresult] at hcount
    · rw [hrounds' n hn] at hk
      have h := hinv.round n k round hk
      exact ⟨h.length_eq, by rw [hissued]; exact h.requests, h.replies⟩

/-- **Every step keeps the invariant.** -/
theorem inv_step (hinv : Inv cfg s) (hstep : Step cfg order s s') : Inv cfg s' := by
  cases hstep with
  | issue hlive hmember hready hclient => exact inv_issue hinv hlive hmember hready hclient
  | @deliver req before after hin =>
      obtain ⟨c, hflight⟩ := hinv.flight req (by simp [hin])
      have hcomm := hinv.comm _ _ hflight.live
      have hperm : s.inFlight.Perm (req :: (before ++ after)) :=
        hin ▸ List.perm_middle
      have hrest : ∀ m ∈ before ++ after, m ∈ s.inFlight :=
        fun m hm => hperm.mem_iff.mpr (List.mem_cons_of_mem _ hm)
      have hkeys := (hperm.map fun m => (m.communicator, m.rank)).nodup_iff.mp
        hinv.flight_nodup
      obtain ⟨hnotin, hnodup⟩ := List.nodup_cons.mp hkeys
      have hother : ∀ m ∈ before ++ after,
          ¬ (m.communicator = req.communicator ∧ m.rank = req.rank) := by
        intro m hm hsame
        exact hnotin (List.mem_map.mpr ⟨m, hm, Prod.ext hsame.1 hsame.2⟩)
      have hdeliver := @deliverRequest_of_free cfg order c req _ hflight.live hflight.free
      by_cases hfull : (c.store req).participants = c.size
      · rw [if_pos hfull] at hdeliver
        apply @inv_execute cfg order _ _ _ _ hinv hflight _ _ hfull hrest hnodup hother rfl
        · simp only [Session.deliver, hdeliver]
        · rfl
        · rfl
        · rfl
        · simp [Session.deliver, hdeliver, roundOf, hflight.live]
        · intro n hn
          simp [Session.deliver, hn]
      · rw [if_neg hfull, hcomm.number] at hdeliver
        apply inv_store hinv hflight hrest hnodup hother
        · simp only [Session.deliver, hdeliver]
        · rfl
        · rfl
        · rfl
        · funext n
          by_cases hn : n = req.communicator
          · simp [Session.deliver, hdeliver, roundOf, hn]
          · simp [Session.deliver, hn]

/-- **The invariant holds in every run.** -/
theorem inv_of_reachable (h : Reachable cfg order s) : Inv cfg s := by
  obtain ⟨server, hserver, hrun⟩ := h
  rw [initCommWorld_eq] at hserver
  cases hserver
  induction hrun with
  | refl =>
      refine ⟨?_, ?_, ?_, ?_, ?_⟩
      · intro n c hc
        match n with
        | 0 =>
            cases hc
            exact CommInv.fresh (valid_worldMembers cfg) (fun _ => rfl) rfl
        | 1 => cases hc
        | 2 => cases hc
        | n + 3 => cases hc
      · intro n _
        exact ⟨fun _ => rfl, rfl⟩
      · intro m hm
        cases hm
      · exact List.nodup_nil
      · intro n k round hround
        cases hround
  | tail _ hstep ih => exact inv_step ih hstep

/-- The operations of a session go round by round: operation `k` on a
communicator combines exactly the `k`-th request of every member, no request in
flight finds its slot taken, and when the requests of an operation agree, every
member is sent exactly one reply. -/
structure RoundByRound (cfg : Config) (order : HashOrder) (s : Session) : Prop where
  combines : ∀ (n k : Nat) round, (s.rounds n)[k]? = some round →
    round.requests.length = round.members.length ∧
      ∀ r : Nat, round.requests[r]? = (s.issued n r)[k]?
  no_duplicate : ∀ req ∈ s.inFlight,
    (deliverRequest cfg order s.server req).2 ≠ .duplicate
  replies : ∀ n, ∀ round ∈ s.rounds n, Agree round.requests →
    ∀ pid ∈ round.members, (round.replies.map Reply.destination).count pid = 1

/-- **Rounds.**  Every run of the server goes round by round, whatever the order
in which the requests of its members arrive. -/
theorem roundByRound_of_reachable (h : Reachable cfg order s) :
    RoundByRound cfg order s := by
  have hinv := inv_of_reachable h
  refine ⟨?_, ?_, ?_⟩
  · intro n k round hround
    have hinv := hinv.round n k round hround
    exact ⟨hinv.length_eq, hinv.requests⟩
  · intro req hreq
    obtain ⟨c, hflight⟩ := hinv.flight req hreq
    rw [deliverRequest_of_free hflight.live hflight.free]
    split
    · exact Outcome.noConfusion
    · exact Outcome.noConfusion
  · intro n round hround
    obtain ⟨k, hk⟩ := List.getElem?_of_mem hround
    exact (hinv.round n k round hk).replies

/-- The request of the process in cluster `r` of `Config.pair` to duplicate the
world. -/
def dupWorld (r : Nat) : CommunicatorRequest := ⟨setPid r 0, 0, r, .dup⟩

/-- `Config.pair` before anything is sent. -/
def pairStart : Session :=
  start [some (Communicator.fresh 0 (tablesSpec (worldMembers Config.pair))), none, none]

/-- Both processes have sent their request. -/
def dupSent : Session := (pairStart.issue (dupWorld 0)).issue (dupWorld 1)

/-- Both requests have arrived, the one sent last first. -/
def dupDone : Session :=
  (dupSent.deliver Config.pair .insertion (dupWorld 1) [dupWorld 0]).deliver Config.pair
    .insertion (dupWorld 0) []

/-- The dup of the world goes round by round, in one round. -/
theorem roundByRound_dupDone :
    (dupDone.rounds 0).length = 1 ∧ RoundByRound Config.pair .insertion dupDone := by
  refine ⟨by decide, roundByRound_of_reachable ⟨_, initCommWorld_eq _, ?_⟩⟩
  have hfirst : Step Config.pair .insertion pairStart (pairStart.issue (dupWorld 0)) :=
    Step.issue rfl (by decide) (fun _ _ h => nomatch h) trivial
  have hsecond : Step Config.pair .insertion (pairStart.issue (dupWorld 0)) dupSent :=
    Step.issue rfl (by decide) (fun _ _ h => nomatch h) trivial
  have hstored : Step Config.pair .insertion dupSent
      (dupSent.deliver Config.pair .insertion (dupWorld 1) [dupWorld 0]) :=
    @Step.deliver _ _ _ (dupWorld 1) [] [dupWorld 0] rfl
  have hexecuted : Step Config.pair .insertion
      (dupSent.deliver Config.pair .insertion (dupWorld 1) [dupWorld 0]) dupDone :=
    @Step.deliver _ _ _ (dupWorld 0) [] [] rfl
  exact .tail (.tail (.tail (.single hfirst) hsecond) hstored) hexecuted

end Session

end Server

end EsalsaMpi
