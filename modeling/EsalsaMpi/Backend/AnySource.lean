import EsalsaMpi.Backend.Receive

/-!
# Receives from any source

A receive from any source on a communicator with members in several clusters
has two places to look at.  `EMPI_Irecv` posts it to the library of the
cluster; a poll (`probe_request`) asks the library whether it has completed
and, if not, looks for a message from another cluster.  When it finds one, it
unpacks it into the same buffer and cancels the posted receive.

The library can match the posted receive at any time in between.  Cancelling
it then comes too late, and a second message is gone.  In every run in which
the posted receive is unmatched whenever it is cancelled, a request that has
completed has consumed one message and describes it
(`AnyReceive.consumedOne_of_timely`).
-/

namespace EsalsaMpi

open MatchQueue

/-- A message in the library of the cluster: the rank of its sender in the
communicator of the request, its tag and its elements. -/
structure LocalSend (α : Type) where
  sender : Nat
  tag : Int
  elements : List α
deriving DecidableEq, Repr

/-- Whether the library matches a receive from any source for the tag. -/
def acceptsTag {α : Type} (tag : Int) (m : LocalSend α) : Bool :=
  tag == empiAnyTag || tag == m.tag

/-- Where a request is in the loop of `probe_request`. -/
inductive PollPhase where
  | waiting
  | tested
  | found
  | unpacked
  | completed
deriving DecidableEq, Repr

/-- A request for a receive from any source, with the library of the cluster and
the mailbox.  `matched` is what the library has matched its receive with;
`arrivedLocally` and `arrived` are what there was to consume when the receive
was posted and what has come since. -/
structure AnyReceive (α : Type) where
  engine : Engine Int (LocalSend α)
  mailbox : Mailbox
  request : Request α
  phase : PollPhase
  matched : Option (LocalSend α)
  status : Option Status
  arrivedLocally : List (LocalSend α)
  arrived : Nat → List Arrival

/-- Arrivals, and the steps of `probe_request`.  `PMPI_Test` may say "not yet"
of a receive that is matched, while the message is being transferred. -/
inductive AnyEvent (α : Type) where
  | arriveLocally (m : LocalSend α)
  | arrive (a : Arrival)
  | testPending
  | testDone
  | probe
  | finalize
  | cancel

/-- The library writes the elements of a message into the buffer of a request. -/
def Request.write {α : Type} (r : Request α) (m : LocalSend α) : Request α :=
  { r with buf := m.elements ++ r.buf.drop m.elements.length }

namespace AnyReceive

variable {α : Type}

/-- What the library does when it matches the posted receive, or does not. -/
def matchLocally (s : AnyReceive α) (engine : Engine Int (LocalSend α))
    (result : Option (Int × LocalSend α)) : AnyReceive α :=
  match result with
  | none => { s with engine := engine }
  | some (_, m) => { s with engine := engine, matched := some m, request := s.request.write m }

/-- `EMPI_Irecv` for a request that is not local, when the library has the given
messages: it posts a local receive from any source. -/
def post (unexpected : List (LocalSend α)) (mb : Mailbox) (r : Request α) : AnyReceive α :=
  let s : AnyReceive α :=
    { engine := ⟨[], unexpected⟩
      mailbox := mb
      request := r
      phase := .waiting
      matched := none
      status := none
      arrivedLocally := unexpected
      arrived := mb.contents }
  let result := s.engine.post acceptsTag r.tag
  s.matchLocally result.1 result.2

/-- The status that `translate_status` makes of a local message. -/
def localStatus (mpiAnyTag : Int) (r : Request α) (m : LocalSend α) : Option Status :=
  (r.c.getLocalRank m.sender).bind fun source =>
    translateStatus mpiAnyTag r.c r.type
      (some ⟨source, m.tag, empiSuccess, false, m.elements.length⟩)

/-- One event; `none` is an event that cannot happen, or a process that ends in
an error. -/
def step (pk : Packing α) (mpiAnyTag : Int) (s : AnyReceive α) :
    AnyEvent α → Option (AnyReceive α)
  | .arriveLocally m =>
    let result := s.engine.arrive acceptsTag m
    some { s.matchLocally result.1 result.2 with arrivedLocally := s.arrivedLocally ++ [m] }
  | .arrive a =>
    some { s with
      mailbox := s.mailbox.arrive a
      arrived := fun comm =>
        s.arrived comm ++ if a.message.comm = comm then [a] else [] }
  | .testPending => if s.phase = .waiting then some { s with phase := .tested } else none
  | .testDone =>
    if s.phase = .waiting then
      s.matched.bind fun m =>
        (localStatus mpiAnyTag s.request m).map fun status =>
          { s with phase := .completed, status := some status }
    else
      none
  | .probe =>
    if s.phase = .tested then
      match messagingProbeReceive s.request false s.mailbox with
      | .done r mb =>
        some { s with
          mailbox := mb
          request := r
          phase := if r.completed then .found else .waiting }
      | _ => none
    else
      none
  | .finalize =>
    if s.phase = .found then
      (messagingFinalizeReceive pk s.request).map fun result =>
        { s with request := result.1, status := result.2, phase := .unpacked }
    else
      none
  | .cancel =>
    if s.phase = .unpacked then
      some { s with engine := { s.engine with posted := [] }, phase := .completed }
    else
      none

/-- The message was sent with the elements `xs` by rank `rank`. -/
def SentBy (pk : Packing α) (a : Arrival) (xs : List α) (rank : Nat) : Prop :=
  ∃ pid dest cs, messagingSend pk pid xs dest a.message.tag cs = some a.message ∧
    cs.globalRank = rank

/-- A message from another cluster that is as MPI wants it: there is room for
it in the buffer of the request, if it matches. -/
def LegalArrival (pk : Packing α) (r : Request α) (a : Arrival) : Prop :=
  ∃ xs rank, SentBy pk a xs rank ∧ (r.pattern.Matches a = true → xs.length ≤ r.count)

/-- A message from the own cluster that is as MPI wants it. -/
structure LegalLocal (mpiAnyTag : Int) (r : Request α) (m : LocalSend α) : Prop where
  sender_lt : m.sender < r.c.globalSize
  cluster : r.c.getClusterRank m.sender = r.c.getClusterRank r.c.globalRank
  tag : m.tag ≠ mpiAnyTag
  room : acceptsTag r.tag m = true → m.elements.length ≤ r.count

/-- The events of legal programs. -/
def Legal (pk : Packing α) (mpiAnyTag : Int) (r : Request α) : AnyEvent α → Prop
  | .arriveLocally m => LegalLocal mpiAnyTag r m
  | .arrive a => LegalArrival pk r a
  | _ => True

/-- The posted receive is unmatched when it is cancelled. -/
def CancelsInTime (s : AnyReceive α) (e : AnyEvent α) : Prop :=
  e = .cancel → s.engine.posted ≠ []

/-- The states of the runs of the request `r` in which it is cancelled in
time. -/
inductive Timely (pk : Packing α) (mpiAnyTag : Int) (r : Request α) : AnyReceive α → Prop where
  | post (unexpected : List (LocalSend α)) (mb : Mailbox)
      (hlocal : ∀ m ∈ unexpected, LegalLocal mpiAnyTag r m)
      (hremote : ∀ comm, ∀ a ∈ mb.contents comm, LegalArrival pk r a) :
      Timely pk mpiAnyTag r (post unexpected mb r)
  | step {s s' : AnyReceive α} {e : AnyEvent α} (h : Timely pk mpiAnyTag r s)
      (hlegal : Legal pk mpiAnyTag r e) (htimely : s.CancelsInTime e)
      (hstep : s.step pk mpiAnyTag e = some s') : Timely pk mpiAnyTag r s'

/-- The request `r` has consumed one message, buffer and status describe it, and
all others are still there. -/
structure ConsumedOne (pk : Packing α) (r : Request α) (s : AnyReceive α) : Prop where
  one : (∃ m, s.matched = some m ∧ s.request.message = none ∧ acceptsTag r.tag m = true ∧
      (s.request.buf, s.status) =
        ((delivered m.elements r.buf m.sender m.tag r.type).1,
          some (delivered m.elements r.buf m.sender m.tag r.type).2)) ∨
    ∃ a xs rank, s.matched = none ∧ s.request.message = some a ∧
      r.pattern.Matches a = true ∧ SentBy pk a xs rank ∧
        (s.request.buf, s.status) =
          ((delivered xs r.buf rank a.message.tag r.type).1,
            some (delivered xs r.buf rank a.message.tag r.type).2)
  othersLocally : (s.matched.toList ++ s.engine.unexpected).Perm s.arrivedLocally
  others : ∀ comm, ((s.request.message.toList.filter fun a => a.message.comm = comm) ++
    s.mailbox.contents comm).Perm (s.arrived comm)

/-- What is known of the request, the buffer and the status in each phase. -/
def PhaseInv (pk : Packing α) (r : Request α) (s : AnyReceive α) : PollPhase → Prop
  | .waiting | .tested =>
    s.request.completed = false ∧ s.request.unpacked = false ∧ s.request.message = none ∧
      s.request.buf = match s.matched with
        | none => r.buf
        | some m => m.elements ++ r.buf.drop m.elements.length
  | .found =>
    s.request.completed = true ∧ s.request.unpacked = false ∧
      ∃ a, s.request.message = some a ∧ r.pattern.Matches a = true ∧ LegalArrival pk r a ∧
        (s.matched = none → s.request.buf = r.buf)
  | .unpacked =>
    ∃ a xs rank, s.request.message = some a ∧ r.pattern.Matches a = true ∧
      SentBy pk a xs rank ∧ (s.matched = none → (s.request.buf, s.status) =
        ((delivered xs r.buf rank a.message.tag r.type).1,
          some (delivered xs r.buf rank a.message.tag r.type).2))
  | .completed =>
    (∃ m, s.matched = some m ∧ s.request.message = none ∧ acceptsTag r.tag m = true ∧
      (s.request.buf, s.status) =
        ((delivered m.elements r.buf m.sender m.tag r.type).1,
          some (delivered m.elements r.buf m.sender m.tag r.type).2)) ∨
    ∃ a xs rank, s.matched = none ∧ s.request.message = some a ∧
      r.pattern.Matches a = true ∧ SentBy pk a xs rank ∧
        (s.request.buf, s.status) =
          ((delivered xs r.buf rank a.message.tag r.type).1,
            some (delivered xs r.buf rank a.message.tag r.type).2)

/-- The request still asks for what `r` asks for. -/
structure Asks (r r' : Request α) : Prop where
  count : r'.count = r.count
  type : r'.type = r.type
  source : r'.source = r.source
  tag : r'.tag = r.tag
  c : r'.c = r.c

theorem Asks.pattern {r r' : Request α} (h : Asks r r') : r'.pattern = r.pattern := by
  rw [Request.pattern, Request.pattern, h.c, h.source, h.tag]

/-- **What holds in a timely run.**  Nothing gets lost, and until the end the
posted receive waits in the library unless it is matched. -/
structure Inv (pk : Packing α) (mpiAnyTag : Int) (r : Request α) (s : AnyReceive α) :
    Prop where
  asks : Asks r s.request
  library : s.matched = none ∧ s.engine.posted = [r.tag] ∧ s.phase ≠ .completed ∨
    s.engine.posted = [] ∧ (s.matched ≠ none ∨ s.phase = .completed)
  matched : ∀ m, s.matched = some m → acceptsTag r.tag m = true ∧ LegalLocal mpiAnyTag r m
  unexpected : ∀ m ∈ s.engine.unexpected, LegalLocal mpiAnyTag r m
  contents : ∀ comm, ∀ a ∈ s.mailbox.contents comm, LegalArrival pk r a
  phase : PhaseInv pk r s s.phase
  othersLocally : (s.matched.toList ++ s.engine.unexpected).Perm s.arrivedLocally
  others : ∀ comm, ((s.request.message.toList.filter fun a => a.message.comm = comm) ++
    s.mailbox.contents comm).Perm (s.arrived comm)

section Steps

variable {pk : Packing α} {mpiAnyTag : Int} {r : Request α} {s s' : AnyReceive α}

/-- A step from one phase to another before the end leaves the library alone. -/
theorem Inv.library_in (h : Inv pk mpiAnyTag r s) (hnow : s.phase ≠ .completed)
    {phase : PollPhase} (hthen : phase ≠ .completed) :
    s.matched = none ∧ s.engine.posted = [r.tag] ∧ phase ≠ .completed ∨
      s.engine.posted = [] ∧ (s.matched ≠ none ∨ phase = .completed) := by
  rcases h.library with ⟨hm, hposted, _⟩ | ⟨hposted, hm | hdone⟩
  · exact Or.inl ⟨hm, hposted, hthen⟩
  · exact Or.inr ⟨hposted, Or.inl hm⟩
  · exact absurd hdone hnow

/-- The posted receive may be matched with a message that was there before. -/
theorem inv_post {unexpected : List (LocalSend α)} {mb : Mailbox}
    (hnew : r.completed = false ∧ r.unpacked = false ∧ r.message = none)
    (hlocal : ∀ m ∈ unexpected, LegalLocal mpiAnyTag r m)
    (hremote : ∀ comm, ∀ a ∈ mb.contents comm, LegalArrival pk r a) :
    Inv pk mpiAnyTag r (post unexpected mb r) := by
  obtain ⟨hcompleted, hunpacked, hmessage⟩ := hnew
  unfold post
  rcases Engine.post_cases acceptsTag (⟨[], unexpected⟩ : Engine Int (LocalSend α)) r.tag with
    ⟨m, rest, htake, heq⟩ | ⟨hnone, heq⟩
  · simp only [heq, matchLocally]
    refine ⟨⟨rfl, rfl, rfl, rfl, rfl⟩, Or.inr ⟨rfl, Or.inl (by simp)⟩, ?_, ?_, hremote,
      ⟨hcompleted, hunpacked, hmessage, rfl⟩, perm_of_takeFirst htake, ?_⟩
    · intro m' hm'
      cases hm'
      exact ⟨of_takeFirst htake, hlocal m (mem_of_takeFirst htake)⟩
    · intro m' hm'
      exact hlocal m' (subset_of_takeFirst htake hm')
    · intro comm
      simp [Request.write, hmessage]
  · simp only [heq, matchLocally]
    refine ⟨⟨rfl, rfl, rfl, rfl, rfl⟩, Or.inl ⟨rfl, rfl, by simp⟩, by simp, hlocal, hremote,
      ⟨hcompleted, hunpacked, hmessage, rfl⟩, by simp, ?_⟩
    intro comm
    simp [hmessage]

/-- A match changes the buffer, of which nothing is known from then on unless the
request has not found another message. -/
theorem phaseInv_matched {m : LocalSend α} {engine : Engine Int (LocalSend α)}
    {arrivedLocally : List (LocalSend α)} (hnone : s.matched = none)
    (hphase : s.phase ≠ .completed) (h : PhaseInv pk r s s.phase) :
    PhaseInv pk r { s with
      engine := engine, matched := some m, request := s.request.write m
      arrivedLocally := arrivedLocally } s.phase := by
  cases hp : s.phase with
  | waiting | tested =>
      rw [hp] at h
      obtain ⟨hcompleted, hunpacked, hmessage, hbuf⟩ := h
      rw [hnone] at hbuf
      exact ⟨hcompleted, hunpacked, hmessage, by simp only [Request.write, hbuf]⟩
  | found =>
      rw [hp] at h
      obtain ⟨hcompleted, hunpacked, a, hmessage, hmatch, hlegal, _⟩ := h
      exact ⟨hcompleted, hunpacked, a, hmessage, hmatch, hlegal, by simp⟩
  | unpacked =>
      rw [hp] at h
      obtain ⟨a, xs, rank, hmessage, hmatch, hsent, _⟩ := h
      exact ⟨a, xs, rank, hmessage, hmatch, hsent, by simp⟩
  | completed => exact absurd hp hphase

theorem inv_arriveLocally (h : Inv pk mpiAnyTag r s) {m : LocalSend α}
    (hlegal : LegalLocal mpiAnyTag r m)
    (hstep : s.step pk mpiAnyTag (.arriveLocally m) = some s') : Inv pk mpiAnyTag r s' := by
  cases hstep
  rcases Engine.arrive_cases acceptsTag s.engine m with ⟨t, posted, htake, heq⟩ | ⟨hnone, heq⟩
  · simp only [heq, matchLocally]
    rcases h.library with ⟨hmatched, hposted, hphase⟩ | ⟨hposted, _⟩
    · rw [hposted] at htake
      have ht : t = r.tag := List.mem_singleton.mp (mem_of_takeFirst htake)
      have hrest : posted = [] := by
        have hlen := (perm_of_takeFirst htake).length_eq
        simpa using hlen
      have haccepts := of_takeFirst htake
      rw [ht] at haccepts
      refine ⟨⟨h.asks.count, h.asks.type, h.asks.source, h.asks.tag, h.asks.c⟩,
        Or.inr ⟨hrest, Or.inl (by simp)⟩, ?_, h.unexpected, h.contents,
        phaseInv_matched hmatched hphase h.phase, ?_, h.others⟩
      · intro m' hm'
        cases hm'
        exact ⟨haccepts, hlegal⟩
      · have hperm := h.othersLocally
        rw [hmatched] at hperm
        exact (List.Perm.cons m hperm).trans (List.perm_append_singleton m _).symm
    · rw [hposted] at htake
      cases htake
  · simp only [heq, matchLocally]
    refine ⟨h.asks, h.library, h.matched, ?_, h.contents, h.phase, ?_, h.others⟩
    · intro m' hm'
      rcases List.mem_append.mp hm' with hm' | hm'
      · exact h.unexpected m' hm'
      · exact List.mem_singleton.mp hm' ▸ hlegal
    · rw [← List.append_assoc]
      exact h.othersLocally.append_right [m]

theorem inv_arrive (h : Inv pk mpiAnyTag r s) {a : Arrival} (hlegal : LegalArrival pk r a)
    (hstep : s.step pk mpiAnyTag (.arrive a) = some s') : Inv pk mpiAnyTag r s' := by
  cases hstep
  refine ⟨h.asks, h.library, h.matched, h.unexpected, ?_, h.phase, h.othersLocally, ?_⟩
  · intro comm b hb
    rw [Mailbox.contents_arrive, List.mem_append] at hb
    rcases hb with hb | hb
    · exact h.contents comm b hb
    · split at hb
      · exact List.mem_singleton.mp hb ▸ hlegal
      · cases hb
  · intro comm
    rw [Mailbox.contents_arrive, ← List.append_assoc]
    exact (h.others comm).append_right _

/-- The library reports the message that it matched. -/
theorem inv_testDone (h : Inv pk mpiAnyTag r s) (htranslates : r.c.Translates)
    (hstep : s.step pk mpiAnyTag .testDone = some s') : Inv pk mpiAnyTag r s' := by
  simp only [step] at hstep
  split at hstep
  · next hwaiting =>
    obtain ⟨m, hm, hstep⟩ := Option.bind_eq_some_iff.mp hstep
    obtain ⟨status, hstatus, rfl⟩ := Option.map_eq_some_iff.mp hstep
    obtain ⟨haccepts, hlegal⟩ := h.matched m hm
    have hphase := h.phase
    rw [hwaiting] at hphase
    obtain ⟨_, _, hmessage, hbuf⟩ := hphase
    rw [hm] at hbuf
    have hdescribes : status = (delivered m.elements r.buf m.sender m.tag r.type).2 := by
      have hrank := htranslates m.sender hlegal.sender_lt hlegal.cluster
      rw [localStatus, h.asks.c, h.asks.type] at hstatus
      obtain ⟨source, hsource, hstatus⟩ := Option.bind_eq_some_iff.mp hstatus
      rw [hsource, Option.bind_some] at hrank
      simp only [translateStatus, hrank, mpi2tag, hlegal.tag, if_false,
        Bool.false_eq_true] at hstatus
      exact (Option.some.inj hstatus).symm
    refine ⟨h.asks, Or.inr ⟨?_, Or.inr rfl⟩, h.matched, h.unexpected, h.contents,
      Or.inl ⟨m, hm, hmessage, haccepts, ?_⟩, h.othersLocally, h.others⟩
    · rcases h.library with ⟨hnone, _⟩ | ⟨hposted, _⟩
      · rw [hm] at hnone
        cases hnone
      · exact hposted
    · rw [hbuf, hdescribes]
      rfl
  · cases hstep

/-- The request looks for a message from another cluster. -/
theorem inv_probe (h : Inv pk mpiAnyTag r s)
    (hstep : s.step pk mpiAnyTag .probe = some s') : Inv pk mpiAnyTag r s' := by
  simp only [step] at hstep
  split at hstep
  · next htested =>
    have hphase := h.phase
    rw [htested] at hphase
    obtain ⟨hcompleted, hunpacked, hmessage, hbuf⟩ := hphase
    have hnot : s.phase ≠ .completed := by simp [htested]
    unfold messagingProbeReceive at hstep
    rw [if_neg (by simp [hcompleted]), h.asks.pattern] at hstep
    cases hpoll : s.mailbox.poll r.pattern false with
    | crashed => simp [hpoll] at hstep
    | pending mb =>
        simp only [hpoll, Bool.false_eq_true, if_false, hcompleted] at hstep
        cases hstep
        have hkeep := Mailbox.poll_pending hpoll
        refine ⟨h.asks, ?_, h.matched, h.unexpected, fun comm a ha =>
          h.contents comm a (hkeep comm ▸ ha), ⟨hcompleted, hunpacked, hmessage, hbuf⟩,
          h.othersLocally, fun comm => hkeep comm ▸ h.others comm⟩
        exact h.library_in hnot (by simp)
    | found a mb =>
        simp only [hpoll, if_true] at hstep
        cases hstep
        obtain ⟨htake, hothers⟩ := Mailbox.poll_found hpoll
        have hmatch : r.pattern.Matches a = true := of_takeFirst htake
        have hcomm := Pattern.comm_of_matches hmatch
        refine ⟨⟨h.asks.count, h.asks.type, h.asks.source, h.asks.tag, h.asks.c⟩, ?_, h.matched,
          h.unexpected, ?_, ?_, h.othersLocally, ?_⟩
        · exact h.library_in hnot (by simp)
        · intro comm b hb
          by_cases hc : comm = r.pattern.comm
          · subst hc
            exact h.contents _ b (subset_of_takeFirst htake hb)
          · exact h.contents comm b (hothers comm hc ▸ hb)
        · refine ⟨rfl, hunpacked, a, rfl, hmatch,
            h.contents _ a (mem_of_takeFirst htake), ?_⟩
          intro hm
          rw [hm] at hbuf
          exact hbuf
        · intro comm
          have hperm := h.others comm
          rw [hmessage] at hperm
          by_cases hc : comm = r.pattern.comm
          · subst hc
            simpa [hcomm] using (perm_of_takeFirst htake).trans (by simpa using hperm)
          · have hne : ¬ a.message.comm = comm := fun heq => hc (heq ▸ hcomm)
            simpa [hne, hothers comm hc] using hperm
  · cases hstep

/-- The message is unpacked into the buffer. -/
theorem inv_finalize (h : Inv pk mpiAnyTag r s) (hpk : pk.Lawful)
    (hstep : s.step pk mpiAnyTag .finalize = some s') : Inv pk mpiAnyTag r s' := by
  simp only [step] at hstep
  split at hstep
  · next hfound =>
    have hphase := h.phase
    rw [hfound] at hphase
    obtain ⟨hcompleted, hunpacked, a, hmessage, hmatch, ⟨xs, rank, hsent, hroom⟩, hbuf⟩ := hphase
    obtain ⟨result, hresult, rfl⟩ := Option.map_eq_some_iff.mp hstep
    unfold messagingFinalizeReceive at hresult
    rw [if_neg (by simp [hcompleted]), if_neg (by simp [hunpacked]), hmessage,
      Option.bind_some] at hresult
    obtain ⟨unpacked, hunpack, rfl⟩ := Option.map_eq_some_iff.mp hresult
    have hothers := h.others
    rw [hmessage] at hothers
    refine ⟨⟨h.asks.count, h.asks.type, h.asks.source, h.asks.tag, h.asks.c⟩, ?_, h.matched,
      h.unexpected, h.contents, ⟨a, xs, rank, rfl, hmatch, hsent, ?_⟩, h.othersLocally,
      hothers⟩
    · exact h.library_in (by simp [hfound]) (by simp)
    · intro hm
      obtain ⟨pid, dest, cs, hsend, rfl⟩ := hsent
      obtain ⟨hexact, hshort⟩ := unpackMessage_sent hpk r.buf r.type hsend
      rw [hbuf hm, h.asks.count, h.asks.type] at hunpack
      -- with room for more elements than were sent, unpacking is an error
      rcases Nat.lt_or_eq_of_le (hroom hmatch) with hlt | heq
      · rw [hshort r.count hlt] at hunpack
        cases hunpack
      · rw [← heq, hexact] at hunpack
        cases hunpack
        rfl
  · cases hstep

/-- The posted receive is cancelled in time. -/
theorem inv_cancel (h : Inv pk mpiAnyTag r s) (htimely : s.engine.posted ≠ [])
    (hstep : s.step pk mpiAnyTag .cancel = some s') : Inv pk mpiAnyTag r s' := by
  simp only [step] at hstep
  split at hstep
  · next hunpacked =>
    cases hstep
    have hphase := h.phase
    rw [hunpacked] at hphase
    obtain ⟨a, xs, rank, hmessage, hmatch, hsent, hdescribes⟩ := hphase
    rcases h.library with ⟨hm, _⟩ | ⟨hposted, _⟩
    · exact ⟨h.asks, Or.inr ⟨rfl, Or.inr rfl⟩, h.matched, h.unexpected, h.contents,
        Or.inr ⟨a, xs, rank, hm, hmessage, hmatch, hsent, hdescribes hm⟩, h.othersLocally,
        h.others⟩
    · exact absurd hposted htimely
  · cases hstep

/-- **One event** of a timely run keeps the invariant. -/
theorem inv_step (h : Inv pk mpiAnyTag r s) (hpk : pk.Lawful) (htranslates : r.c.Translates)
    {e : AnyEvent α} (hlegal : Legal pk mpiAnyTag r e) (htimely : s.CancelsInTime e)
    (hstep : s.step pk mpiAnyTag e = some s') : Inv pk mpiAnyTag r s' := by
  cases e with
  | arriveLocally m => exact inv_arriveLocally h hlegal hstep
  | arrive a => exact inv_arrive h hlegal hstep
  | testPending =>
      simp only [step] at hstep
      split at hstep
      · next hwaiting =>
        cases hstep
        have hphase := h.phase
        rw [hwaiting] at hphase
        exact ⟨h.asks, h.library_in (by simp [hwaiting]) (by simp), h.matched, h.unexpected,
          h.contents, hphase, h.othersLocally, h.others⟩
      · cases hstep
  | testDone => exact inv_testDone h htranslates hstep
  | probe => exact inv_probe h hstep
  | finalize => exact inv_finalize h hpk hstep
  | cancel => exact inv_cancel h (htimely rfl) hstep

end Steps

/-- **One message for one request.**  In every run that cancels in time, a
request from any source that has completed has consumed exactly one message,
which its buffer and its status describe, and every other message is still
there. -/
theorem consumedOne_of_timely {pk : Packing α} {mpiAnyTag : Int} {buf : List α} {count : Nat}
    {type tag : Int} {c : Communicator} {s : AnyReceive α} (hpk : pk.Lawful)
    (htranslates : c.Translates)
    (h : Timely pk mpiAnyTag (createRequest buf count type empiAnySource tag c) s)
    (hcompleted : s.phase = .completed) :
    s.ConsumedOne pk (createRequest buf count type empiAnySource tag c) := by
  have hinv : Inv pk mpiAnyTag (createRequest buf count type empiAnySource tag c) s := by
    clear hcompleted
    induction h with
    | post unexpected mb hlocal hremote => exact inv_post ⟨rfl, rfl, rfl⟩ hlocal hremote
    | step _ hlegal htimely hstep ih => exact inv_step ih hpk htranslates hlegal htimely hstep
  have hphase := hinv.phase
  rw [hcompleted] at hphase
  exact ⟨hphase, hinv.othersLocally, hinv.others⟩

/-- A run that goes through. -/
def run (pk : Packing α) (mpiAnyTag : Int) (s : AnyReceive α) (events : List (AnyEvent α)) :
    Option (AnyReceive α) :=
  events.foldlM (step pk mpiAnyTag) s

/-- The world of two processes in cluster 0 and one in cluster 1, at rank 0. -/
def mixedWorld : Communicator := worldCommunicator [2, 1] 0 0

/-- A receive of one element from any source. -/
def anyRequest : Request UInt8 := createRequest [0] 1 0 empiAnySource 5 mixedWorld

/-- The request is posted before anything has come. -/
def anyPosted : AnyReceive UInt8 :=
  post [] ⟨[], fun h => if h = 0 then some [] else none⟩ anyRequest

/-- The element 7 from rank 2, in the other cluster. -/
def remoteSeven : Arrival :=
  ⟨0, createDataMessage (setPid 1 0) opcodeData (setPid 0 0) 0 2 0 5 1 [7]⟩

/-- The element 9 from rank 1, in the own cluster. -/
def localNine : LocalSend UInt8 := ⟨1, 5, [9]⟩

/-- The local message comes after the cancel. -/
theorem consumedOne_localAfter :
    ∃ s, run bytePacking (-2) anyPosted [.testPending, .arrive remoteSeven, .probe, .finalize,
        .cancel, .arriveLocally localNine] = some s ∧
      s.phase = .completed ∧ s.ConsumedOne bytePacking anyRequest := by
  have htranslates : mixedWorld.Translates := by
    unfold Communicator.Translates
    decide
  have hsent : SentBy bytePacking remoteSeven [7] 2 :=
    ⟨setPid 1 0, 0, worldCommunicator [2, 1] 1 0, by decide, by decide⟩
  have hlocal : LegalLocal (-2) anyRequest localNine :=
    ⟨by decide, by decide, by decide, fun _ => by decide⟩
  have hposted : Timely bytePacking (-2) anyRequest anyPosted :=
    .post _ _ (by simp) fun comm a ha => by
      by_cases hc : comm = 0 <;> simp [Mailbox.contents, hc] at ha
  have htested := hposted.step (e := .testPending) trivial (by rintro ⟨⟩) rfl
  have harrived := htested.step (e := .arrive remoteSeven) ⟨[7], 2, hsent, fun _ => by decide⟩
    (by rintro ⟨⟩) rfl
  have hunpacked := (harrived.step (e := .probe) trivial (by rintro ⟨⟩) rfl).step (e := .finalize) trivial
    (by rintro ⟨⟩) rfl
  have hcancelled := hunpacked.step (e := .cancel) trivial (fun _ => List.cons_ne_nil 5 []) rfl
  have hafter := hcancelled.step (e := .arriveLocally localNine) hlocal (by rintro ⟨⟩) rfl
  exact ⟨_, rfl, rfl, consumedOne_of_timely bytePacking_lawful htranslates hafter rfl⟩

/-- The local message comes before the cancel, and is lost: the request consumes
both messages. -/
theorem not_consumedOne_localBefore :
    ∃ s, run bytePacking (-2) anyPosted [.testPending, .arrive remoteSeven, .probe, .finalize,
        .arriveLocally localNine, .cancel] = some s ∧
      s.phase = .completed ∧ ¬ s.ConsumedOne bytePacking anyRequest := by
  refine ⟨_, rfl, rfl, ?_⟩
  intro h
  rcases h.one with ⟨m, _, hmessage, _⟩ | ⟨a, _, _, hmatched, _⟩
  · cases hmessage
  · cases hmatched

end AnyReceive

end EsalsaMpi
