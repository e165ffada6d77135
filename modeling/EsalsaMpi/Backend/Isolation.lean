import EsalsaMpi.Backend.Mailbox

/-!
# User traffic and collective traffic

The collective operations send and receive on the communicator of the user,
over the wide area and in the library of the cluster, and tell their messages
from those of the user by tags of their own.  The tags are the eight below
`MAX_TAG`, which the calls of the user accept too, and a receive of the user
that accepts any tag accepts these.

`Traffic` is the receive side of one process, with what each message and each
receive belongs to.  In every state of a run in which the user stays off the
eight tags, and a receive for any tag does not come to a collective message
first, each has consumed its own messages only (`Traffic.isolated_of_apart`).
-/

namespace EsalsaMpi

open MatchQueue

/-- `EMPI_TAG_UB`. -/
def empiTagUb : Int := 32767

/-- The tags of the collective operations. -/
def collectiveTags : List Int :=
  [bcastTag, barrierTag, reduceTag, scanTag, gathervTag, scattervTag, allgathervTag,
    alltoallvTag]

/-- What a message or a receive belongs to. -/
inductive Kind where
  | user
  | collective
deriving DecidableEq, Repr

/-- The tags with which messages of a kind are sent. -/
def Kind.Sends : Kind → Int → Prop
  | .user, tag => 0 ≤ tag ∧ tag ≤ empiTagUb
  | .collective, tag => tag ∈ collectiveTags

/-- The tags for which a kind receives. -/
def Kind.Receives : Kind → Int → Prop
  | .user, tag => tag = empiAnyTag ∨ 0 ≤ tag ∧ tag ≤ empiTagUb
  | .collective, tag => tag ∈ collectiveTags

/-- A message in the library of the cluster, from a rank of its communicator. -/
structure LocalMessage where
  kind : Kind
  comm : Nat
  source : Int
  tag : Int
deriving DecidableEq, Repr

/-- A receive in the library of the cluster, in terms of EMPI: `tag2mpi` maps
`EMPI_ANY_TAG` to its counterpart, and `EMPI_ANY_SOURCE` is passed on as
`MPI_ANY_SOURCE`. -/
structure LocalReceive where
  kind : Kind
  comm : Nat
  source : Int
  tag : Int
deriving DecidableEq, Repr

/-- The library matches as `match_message` does. -/
def LocalReceive.Accepts (r : LocalReceive) (m : LocalMessage) : Bool :=
  r.comm == m.comm && (r.source == empiAnySource || r.source == m.source) &&
    (r.tag == empiAnyTag || r.tag == m.tag)

theorem LocalReceive.tag_of_accepts {r : LocalReceive} {m : LocalMessage}
    (h : r.Accepts m = true) : r.tag = empiAnyTag ∨ r.tag = m.tag := by
  simp only [Accepts, Bool.and_eq_true, Bool.or_eq_true, beq_iff_eq] at h
  exact h.2

/-- The receive side of a process.  `kinds` has the kinds of the wide-area
messages in the order of their arrival, and `consumed` those of the receives
that have consumed a message, each with that of the message. -/
structure Traffic where
  mailbox : Mailbox
  kinds : List Kind
  engine : Engine LocalReceive LocalMessage
  consumed : List (Kind × Kind)

/-- What happens: a message comes over the wide area or from the own cluster, a
receive searches the mailbox or is handed to the library, or the library
cancels a receive that waits. -/
inductive TrafficEvent where
  | arrive (kind : Kind) (m : DataMessage)
  | receive (kind : Kind) (pat : Pattern) (blocking : Bool)
  | arriveLocally (m : LocalMessage)
  | receiveLocally (r : LocalReceive)
  | cancel (i : Nat)

namespace Traffic

/-- A process that knows the given communicators and has received nothing. -/
def start (known : Nat → Bool) : Traffic :=
  ⟨⟨[], fun h => if known h then some [] else none⟩, [], ⟨[], []⟩, []⟩

/-- The kinds of a match in the library. -/
def consumption (matched : Option (LocalReceive × LocalMessage)) : List (Kind × Kind) :=
  match matched with
  | some (r, m) => [(r.kind, m.kind)]
  | none => []

/-- One event; `none` is a process that has ended. -/
def step (s : Traffic) : TrafficEvent → Option Traffic
  | .arrive kind m =>
    some { s with mailbox := s.mailbox.arrive ⟨s.kinds.length, m⟩, kinds := s.kinds ++ [kind] }
  | .receive kind pat blocking =>
    match s.mailbox.poll pat blocking with
    | .found a mb =>
      (s.kinds[a.seq]?).map fun sent =>
        { s with mailbox := mb, consumed := s.consumed ++ [(kind, sent)] }
    | .pending mb => some { s with mailbox := mb }
    | .crashed => none
  | .arriveLocally m =>
    let result := s.engine.arrive LocalReceive.Accepts m
    some { s with engine := result.1, consumed := s.consumed ++ consumption result.2 }
  | .receiveLocally r =>
    let result := s.engine.post LocalReceive.Accepts r
    some { s with engine := result.1, consumed := s.consumed ++ consumption result.2 }
  | .cancel i =>
    some { s with engine := { s.engine with posted := s.engine.posted.eraseIdx i } }

/-- The events of the program: the tags are those that the calls accept. -/
def Legal : TrafficEvent → Prop
  | .arrive kind m => kind.Sends m.tag
  | .receive kind pat _ => kind.Receives pat.tag
  | .arriveLocally m => m.kind.Sends m.tag
  | .receiveLocally r => r.kind.Receives r.tag
  | .cancel _ => True

/-- Nobody has consumed a message of the other kind. -/
def Isolated (s : Traffic) : Prop := ∀ c ∈ s.consumed, c.1 = c.2

/-- An event keeps the kinds apart.  The user stays off the tags of the
collective operations; the first message that is there for a receive with any
tag carries none of these; and no message that carries one comes to the library
while a receive with any tag waits for it. -/
def Apart (s : Traffic) : TrafficEvent → Prop
  | .arrive kind m => kind = .user → m.tag ∉ collectiveTags
  | .receive kind pat blocking => kind = .user → pat.tag ∉ collectiveTags ∧
      (pat.tag = empiAnyTag → s.mailbox.Offers pat blocking →
        ∀ a, (s.mailbox.contents pat.comm).find? pat.Matches = some a →
          a.message.tag ∉ collectiveTags)
  | .arriveLocally m =>
      (m.kind = .user → m.tag ∉ collectiveTags) ∧
      (m.tag ∈ collectiveTags →
        ∀ r, s.engine.posted.find? (fun r => r.Accepts m) = some r → r.tag ≠ empiAnyTag)
  | .receiveLocally r => r.kind = .user → r.tag ∉ collectiveTags ∧
      (r.tag = empiAnyTag → ∀ m, s.engine.unexpected.find? r.Accepts = some m →
        m.tag ∉ collectiveTags)
  | .cancel _ => True

/-- The states of the runs that keep the kinds apart. -/
inductive KeptApart : Traffic → Prop where
  | start (known : Nat → Bool) : KeptApart (start known)
  | step {s s' : Traffic} {e : TrafficEvent} (h : KeptApart s) (hlegal : Legal e)
      (hapart : s.Apart e) (hstep : s.step e = some s') : KeptApart s'

/-- A run that goes through. -/
def run (s : Traffic) (events : List TrafficEvent) : Option Traffic := events.foldlM step s

/-- The tags tell the kinds apart wherever something waits. -/
structure Inv (s : Traffic) : Prop where
  sent : ∀ comm, ∀ a ∈ s.mailbox.contents comm, ∀ kind, s.kinds[a.seq]? = some kind →
    (kind = .collective ↔ a.message.tag ∈ collectiveTags)
  seq_lt : ∀ comm, ∀ a ∈ s.mailbox.contents comm, a.seq < s.kinds.length
  unexpected : ∀ m ∈ s.engine.unexpected, m.kind = .collective ↔ m.tag ∈ collectiveTags
  posted : ∀ r ∈ s.engine.posted, r.kind = .collective ↔ r.tag ∈ collectiveTags
  isolated : s.Isolated

theorem empiAnyTag_notMem : empiAnyTag ∉ collectiveTags := by decide

/-- A kind of message that keeps to its tags. -/
theorem sends_iff {kind : Kind} {tag : Int} (hlegal : kind.Sends tag)
    (hapart : kind = .user → tag ∉ collectiveTags) :
    kind = .collective ↔ tag ∈ collectiveTags := by
  cases kind with
  | user => simp [hapart rfl]
  | collective => exact ⟨fun _ => hlegal, fun _ => rfl⟩

theorem receives_iff {kind : Kind} {tag : Int} (hlegal : kind.Receives tag)
    (hapart : kind = .user → tag ∉ collectiveTags) :
    kind = .collective ↔ tag ∈ collectiveTags := by
  cases kind with
  | user => simp [hapart rfl]
  | collective => exact ⟨fun _ => hlegal, fun _ => rfl⟩

/-- **A match is one of a kind**: by equal tags, or because the message does not
carry a collective tag. -/
theorem kind_eq {receive sent : Kind} {asked tag : Int}
    (hreceive : receive = .collective ↔ asked ∈ collectiveTags)
    (hsent : sent = .collective ↔ tag ∈ collectiveTags)
    (hmatch : asked = empiAnyTag ∨ asked = tag)
    (hany : asked = empiAnyTag → tag ∉ collectiveTags) : receive = sent := by
  have hiff : asked ∈ collectiveTags ↔ tag ∈ collectiveTags := by
    rcases hmatch with heq | heq
    · have hno := hany heq
      rw [heq]
      exact ⟨fun h => absurd h empiAnyTag_notMem, fun h => absurd h hno⟩
    · rw [heq]
  cases receive <;> cases sent <;> simp_all

theorem inv_start (known : Nat → Bool) : Inv (start known) := by
  have hempty : ∀ comm, (start known).mailbox.contents comm = [] := by
    intro comm
    cases hk : known comm <;> simp [start, Mailbox.contents, hk]
  refine ⟨?_, ?_, by simp [start], by simp [start], by simp [start, Isolated]⟩
  · intro comm a ha
    rw [hempty] at ha
    cases ha
  · intro comm a ha
    rw [hempty] at ha
    cases ha

variable {s s' : Traffic}

/-- An arrival over the wide area. -/
theorem inv_arrive (h : Inv s) {kind : Kind} {m : DataMessage}
    (hkind : kind = .collective ↔ m.tag ∈ collectiveTags) :
    Inv { s with
      mailbox := s.mailbox.arrive ⟨s.kinds.length, m⟩, kinds := s.kinds ++ [kind] } := by
  have hmem : ∀ comm, ∀ a ∈ (s.mailbox.arrive ⟨s.kinds.length, m⟩).contents comm,
      a ∈ s.mailbox.contents comm ∨ a = ⟨s.kinds.length, m⟩ := by
    intro comm a ha
    rw [Mailbox.contents_arrive, List.mem_append] at ha
    rcases ha with ha | ha
    · exact Or.inl ha
    · split at ha
      · exact Or.inr (List.mem_singleton.mp ha)
      · cases ha
  refine ⟨?_, ?_, h.unexpected, h.posted, h.isolated⟩
  · intro comm a ha sent hsent
    rcases hmem comm a ha with ha | rfl
    · rw [List.getElem?_append_left (h.seq_lt comm a ha)] at hsent
      exact h.sent comm a ha sent hsent
    · simp only [List.getElem?_concat_length, Option.some.injEq] at hsent
      exact hsent ▸ hkind
  · intro comm a ha
    rw [List.length_append, List.length_singleton]
    rcases hmem comm a ha with ha | rfl
    · exact Nat.lt_succ_of_lt (h.seq_lt comm a ha)
    · exact Nat.lt_succ_self _

/-- A receive searches the mailbox. -/
theorem inv_receive (h : Inv s) {kind : Kind} {pat : Pattern} {blocking : Bool}
    (hkind : kind = .collective ↔ pat.tag ∈ collectiveTags)
    (hany : pat.tag = empiAnyTag → s.mailbox.Offers pat blocking →
      ∀ a, (s.mailbox.contents pat.comm).find? pat.Matches = some a →
        a.message.tag ∉ collectiveTags)
    (hstep : s.step (.receive kind pat blocking) = some s') : Inv s' := by
  unfold step at hstep
  cases hpoll : s.mailbox.poll pat blocking with
  | crashed => simp [hpoll] at hstep
  | pending mb =>
      simp only [hpoll] at hstep
      cases hstep
      have hkeep := Mailbox.poll_pending hpoll
      exact ⟨fun comm a ha => h.sent comm a (hkeep comm ▸ ha),
        fun comm a ha => h.seq_lt comm a (hkeep comm ▸ ha), h.unexpected, h.posted, h.isolated⟩
  | found a mb =>
      simp only [hpoll] at hstep
      obtain ⟨sent, hsent, rfl⟩ := Option.map_eq_some_iff.mp hstep
      obtain ⟨htake, hothers⟩ := Mailbox.poll_found hpoll
      have hsub : ∀ comm, mb.contents comm ⊆ s.mailbox.contents comm := by
        intro comm
        by_cases hcomm : comm = pat.comm
        · exact hcomm ▸ subset_of_takeFirst htake
        · rw [hothers comm hcomm]
          exact List.Subset.refl _
      refine ⟨fun comm b hb => h.sent comm b (hsub comm hb),
        fun comm b hb => h.seq_lt comm b (hsub comm hb), h.unexpected, h.posted, ?_⟩
      have ha : pat.Matches a = true := of_takeFirst htake
      have hmatch := (matchMessage_eq_true_iff.mp ha).2.2
      have heq := kind_eq hkind (h.sent _ a (mem_of_takeFirst htake) sent hsent) hmatch
        fun htag => hany htag (Mailbox.offers_of_poll hpoll) a (find?_of_takeFirst htake)
      intro c hc
      rcases List.mem_append.mp hc with hc | hc
      · exact h.isolated c hc
      · rw [List.mem_singleton.mp hc]
        exact heq

/-- A message of the own cluster comes to the library. -/
theorem inv_arriveLocally (h : Inv s) {m : LocalMessage}
    (hkind : m.kind = .collective ↔ m.tag ∈ collectiveTags)
    (hany : m.tag ∈ collectiveTags →
      ∀ r, s.engine.posted.find? (fun r => r.Accepts m) = some r → r.tag ≠ empiAnyTag)
    (hstep : s.step (.arriveLocally m) = some s') : Inv s' := by
  cases hstep
  rcases Engine.arrive_cases LocalReceive.Accepts s.engine m with
    ⟨r, posted, htake, heq⟩ | ⟨hnone, heq⟩
  · rw [heq]
    refine ⟨h.sent, h.seq_lt, h.unexpected, fun q hq => h.posted q (subset_of_takeFirst htake hq),
      ?_⟩
    have haccepts := of_takeFirst htake
    have hsame := kind_eq (h.posted r (mem_of_takeFirst htake)) hkind
      (LocalReceive.tag_of_accepts haccepts) fun htag hmem =>
        hany hmem r (find?_of_takeFirst htake) htag
    intro c hc
    rcases List.mem_append.mp hc with hc | hc
    · exact h.isolated c hc
    · rw [List.mem_singleton.mp hc]
      exact hsame
  · rw [heq]
    refine ⟨h.sent, h.seq_lt, ?_, h.posted, ?_⟩
    · intro q hq
      rcases List.mem_append.mp hq with hq | hq
      · exact h.unexpected q hq
      · rw [List.mem_singleton.mp hq]
        exact hkind
    · intro c hc
      exact h.isolated c (by simpa [consumption] using hc)

/-- A receive is handed to the library. -/
theorem inv_receiveLocally (h : Inv s) {r : LocalReceive}
    (hkind : r.kind = .collective ↔ r.tag ∈ collectiveTags)
    (hany : r.tag = empiAnyTag → ∀ m, s.engine.unexpected.find? r.Accepts = some m →
      m.tag ∉ collectiveTags)
    (hstep : s.step (.receiveLocally r) = some s') : Inv s' := by
  cases hstep
  rcases Engine.post_cases LocalReceive.Accepts s.engine r with
    ⟨m, unexpected, htake, heq⟩ | ⟨hnone, heq⟩
  · rw [heq]
    refine ⟨h.sent, h.seq_lt, fun q hq => h.unexpected q (subset_of_takeFirst htake hq),
      h.posted, ?_⟩
    have hsame := kind_eq hkind (h.unexpected m (mem_of_takeFirst htake))
      (LocalReceive.tag_of_accepts (of_takeFirst htake)) fun htag =>
        hany htag m (find?_of_takeFirst htake)
    intro c hc
    rcases List.mem_append.mp hc with hc | hc
    · exact h.isolated c hc
    · rw [List.mem_singleton.mp hc]
      exact hsame
  · rw [heq]
    refine ⟨h.sent, h.seq_lt, h.unexpected, ?_, ?_⟩
    · intro q hq
      rcases List.mem_append.mp hq with hq | hq
      · exact h.posted q hq
      · rw [List.mem_singleton.mp hq]
        exact hkind
    · intro c hc
      exact h.isolated c (by simpa [consumption] using hc)

/-- **One event** that keeps the kinds apart keeps the invariant. -/
theorem inv_step (h : Inv s) {e : TrafficEvent} (hlegal : Legal e) (hapart : s.Apart e)
    (hstep : s.step e = some s') : Inv s' := by
  cases e with
  | arrive kind m =>
      cases hstep
      exact inv_arrive h (sends_iff hlegal hapart)
  | receive kind pat blocking =>
      have hkind := receives_iff hlegal fun hk => (hapart hk).1
      refine inv_receive h hkind ?_ hstep
      intro htag
      have huser : kind = .user := by
        cases kind with
        | user => rfl
        | collective => exact absurd (htag ▸ hlegal) empiAnyTag_notMem
      exact (hapart huser).2 htag
  | arriveLocally m => exact inv_arriveLocally h (sends_iff hlegal hapart.1) hapart.2 hstep
  | receiveLocally r =>
      have hkind := receives_iff hlegal fun hk => (hapart hk).1
      refine inv_receiveLocally h hkind ?_ hstep
      intro htag
      have huser : r.kind = .user := by
        cases hk : r.kind with
        | user => rfl
        | collective =>
            rw [hk, iff_true_left rfl, htag] at hkind
            exact absurd hkind empiAnyTag_notMem
      exact (hapart huser).2 htag
  | cancel i =>
      cases hstep
      exact ⟨h.sent, h.seq_lt, h.unexpected,
        fun r hr => h.posted r (List.mem_of_mem_eraseIdx hr), h.isolated⟩

/-- **User and collective traffic are isolated** in every state of a run that
keeps their tags apart. -/
theorem isolated_of_apart (h : KeptApart s) : s.Isolated := by
  have hinv : Inv s := by
    induction h with
    | start known => exact inv_start known
    | step _ hlegal hapart hstep ih => exact inv_step ih hlegal hapart hstep
  exact hinv.isolated

/-- A message of the user with tag 5, from rank 1 in cluster 1. -/
def userMessage : DataMessage :=
  createDataMessage (setPid 1 0) opcodeData (setPid 0 0) 0 1 0 5 1 [7]

/-- A broadcast from the same rank. -/
def bcastMessage : DataMessage :=
  createDataMessage (setPid 1 0) opcodeCollectiveBcast (setPid 0 0) 0 1 0 bcastTag 1 [8]

/-- The user's message comes first and is consumed by a receive with any tag. -/
theorem isolated_userFirst :
    ∃ s, run (start fun h => h == 0) [.arrive .user userMessage,
        .arrive .collective bcastMessage, .receive .user ⟨0, 1, empiAnyTag⟩ true] = some s ∧
      s.consumed = [(.user, .user)] ∧ s.Isolated := by
  have hstart : KeptApart (start fun h => h == 0) := .start _
  have huser : userMessage.tag ∉ collectiveTags := by decide
  have hbcast : bcastMessage.tag ∈ collectiveTags := by decide
  have hboth := (hstart.step (e := .arrive .user userMessage) ⟨by decide, by decide⟩
    (fun _ => huser) rfl).step (e := .arrive .collective bcastMessage) hbcast nofun rfl
  have hreceived := hboth.step (e := .receive .user ⟨0, 1, empiAnyTag⟩ true) (Or.inl rfl)
    (fun _ => ⟨empiAnyTag_notMem, fun _ _ a ha => by cases ha; exact huser⟩) rfl
  exact ⟨_, rfl, rfl, isolated_of_apart hreceived⟩

/-- A receive of the user with any tag consumes the broadcast. -/
theorem not_isolated_bcastFirst :
    ∃ s, run (start fun h => h == 0) [.arrive .collective bcastMessage,
        .receive .user ⟨0, 1, empiAnyTag⟩ true] = some s ∧
      (∀ e ∈ [.arrive .collective bcastMessage, .receive .user ⟨0, 1, empiAnyTag⟩ true],
        Legal e) ∧ ¬ s.Isolated := by
  refine ⟨_, rfl, ?_, ?_⟩
  · intro e he
    rcases List.mem_cons.mp he with rfl | he
    · exact (by decide : bcastTag ∈ collectiveTags)
    · cases List.mem_singleton.mp he
      exact Or.inl rfl
  · intro h
    cases h (.user, .collective) (List.mem_singleton_self _)

end Traffic

end EsalsaMpi
