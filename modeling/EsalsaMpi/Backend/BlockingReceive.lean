import EsalsaMpi.Backend.Receive

/-!
# Blocking receives from other clusters

`messaging_receive` first searches the queue of its communicator.  If nothing there
matches, it takes the messages one by one that the gateways have sent to the process,
stores those that do not match in the queues of their communicators, and waits when there
are none.

A run is a sequence of arrivals, calls and probes (`Reception.step`), in which messages
arrive also while a call waits.  Whatever has been asked for before, a call returns the
message that arrived first among all that match and have not been returned
(`Reception.receivesEarliest_of_reachable`).
-/

namespace EsalsaMpi

open MatchQueue

/-- The receive side of a process: what has come to it, of which `probed` lists the messages
that it has taken from MPI, what the call under way asks for, and what the calls so far have
asked for and returned. -/
structure Reception where
  mailbox : Mailbox
  probed : List Arrival
  calling : Option Pattern
  returned : List (Pattern × Arrival)

/-- An arrival, a new communicator, a call of `messaging_receive`, or a round of its
loop. -/
inductive ReceptionEvent where
  | arrive (m : DataMessage)
  | create (comm : Nat)
  | receive (pat : Pattern)
  | probe

namespace Reception

/-- A process that knows the given communicators, to which nothing has come. -/
def start (known : Nat → Bool) : Reception :=
  ⟨⟨[], fun h => if known h then some [] else none⟩, [], none, []⟩

variable (s : Reception)

/-- What has arrived, in this order. -/
def arrived : List Arrival := s.probed ++ s.mailbox.incoming

/-- What the calls have returned. -/
def consumed : List Arrival := s.returned.map Prod.snd

/-- What has arrived and has not been returned. -/
def unconsumed : List Arrival := s.arrived.filter (· ∉ s.consumed)

/-- A call returns `a`. -/
def finish (pat : Pattern) (a : Arrival) (mb : Mailbox) : Reception :=
  { s with
    mailbox := mb
    calling := none
    returned := s.returned ++ [(pat, a)] }

/-- One event.  `none` is an event that cannot happen now, or the end of a process that has
got a message for a communicator that it does not know. -/
def step : ReceptionEvent → Option Reception
  | .arrive m => some { s with mailbox := s.mailbox.arrive ⟨s.arrived.length, m⟩ }
  | .create comm =>
    match s.mailbox.queue comm with
    | none => some { s with mailbox := s.mailbox.setQueue comm [] }
    | some _ => none
  | .receive pat =>
    if s.calling = none ∧ (s.mailbox.queue pat.comm).isSome then
      match s.mailbox.findPendingMessage pat with
      | some (a, mb) => some (s.finish pat a mb)
      | none => some { s with calling := some pat }
    else
      none
  | .probe =>
    match s.calling, s.mailbox.incoming with
    | some pat, a :: rest =>
      let s' : Reception :=
        { s with
          mailbox := ⟨rest, s.mailbox.queue⟩
          probed := s.probed ++ [a] }
      if pat.Matches a then
        some (s'.finish pat a s'.mailbox)
      else
        (s'.mailbox.storeMessage a).map fun mb => { s' with mailbox := mb }
    | _, _ => none

/-- The states of a run. -/
inductive Reachable : Reception → Prop where
  | start (known : Nat → Bool) : Reachable (start known)
  | step {s s' : Reception} {e : ReceptionEvent} (h : Reachable s) (hstep : s.step e = some s') :
      Reachable s'

/-- **Nothing gets lost**: what is returned has arrived, matches its call and is returned
once, and what is taken from MPI and not returned is in the queue of its own communicator, in
the order of arrival. -/
structure Kept : Prop where
  nodup : s.consumed.Nodup
  probed : s.consumed ⊆ s.probed
  matched : ∀ r ∈ s.returned, r.1.Matches r.2 = true
  queue : ∀ comm l, s.mailbox.queue comm = some l →
    l = (s.probed.filter fun a => a.message.comm = comm).filter (· ∉ s.consumed)
  known : ∀ a ∈ s.probed, a ∉ s.consumed → (s.mailbox.queue a.message.comm).isSome

/-- **Receives in order**: nothing gets lost, and whatever call returns next, it returns the
first match of what has arrived and has not been returned. -/
structure ReceivesEarliest : Prop where
  kept : s.Kept
  earliest : ∀ e s' pat a, s.step e = some s' → s'.returned = s.returned ++ [(pat, a)] →
    takeFirst pat.Matches s.unconsumed = some (a, s'.unconsumed)

/-- What holds in a run: the messages are told apart, nothing gets lost, and a call that
waits has not found its message in the queue. -/
structure Inv : Prop where
  nodup : s.arrived.Nodup
  seq : ∀ a ∈ s.arrived, a.seq < s.arrived.length
  kept : s.Kept
  waiting : ∀ pat, s.calling = some pat → ∃ l, s.mailbox.queue pat.comm = some l ∧
    ∀ a ∈ l, pat.Matches a = false

section Steps

variable {s s' : Reception} {pat : Pattern} {a : Arrival} {mb : Mailbox}
  {l l' rest : List Arrival}

theorem inv_start (known : Nat → Bool) : (start known).Inv where
  nodup := List.nodup_nil
  seq a ha := by cases ha
  kept :=
    { nodup := List.nodup_nil
      probed := List.nil_subset _
      matched := fun r hr => by cases hr
      queue := by
        intro comm l hl
        simp only [start] at hl
        split at hl
        · cases hl
          rfl
        · cases hl
      known := fun a ha => by cases ha }
  waiting pat h := by cases h

/-- What is not returned of one communicator is what its mailbox holds. -/
theorem Inv.filter_unconsumed (h : s.Inv) {comm : Nat} (hl : s.mailbox.queue comm = some l) :
    s.unconsumed.filter (fun a => a.message.comm = comm) = s.mailbox.contents comm := by
  have hincoming : ∀ a ∈ s.mailbox.incoming, a ∉ s.consumed := by
    intro a ha hconsumed
    exact (List.disjoint_of_nodup_append h.nodup) (h.kept.probed hconsumed) ha
  have hrest : s.mailbox.incoming.filter (· ∉ s.consumed) = s.mailbox.incoming :=
    List.filter_eq_self.mpr fun a ha => decide_eq_true (hincoming a ha)
  rw [unconsumed, arrived, List.filter_append, hrest, List.filter_append, Mailbox.contents, hl,
    Option.getD_some, h.kept.queue comm l hl, List.filter_filter, List.filter_filter]
  congr 1
  apply List.filter_congr
  intro a _
  rw [Bool.and_comm]

/-- The first match of what is not returned is the first match in the mailbox. -/
theorem Inv.find?_unconsumed (h : s.Inv) (hl : s.mailbox.queue pat.comm = some l) :
    s.unconsumed.find? pat.Matches = (s.mailbox.contents pat.comm).find? pat.Matches := by
  rw [← h.filter_unconsumed hl, List.find?_filter]
  congr 1
  funext a
  cases ha : pat.Matches a with
  | false => simp
  | true => simp [Pattern.comm_of_matches ha]

/-- **A call returns** the first match, if it returns the first match in the mailbox. -/
theorem Inv.earliest (h : s.Inv) (hl : s.mailbox.queue pat.comm = some l)
    (hfind : (s.mailbox.contents pat.comm).find? pat.Matches = some a)
    (harrived : s'.arrived = s.arrived) (hreturned : s'.returned = s.returned ++ [(pat, a)]) :
    takeFirst pat.Matches s.unconsumed = some (a, s'.unconsumed) := by
  rw [← h.find?_unconsumed hl] at hfind
  have hconsumed : s'.consumed = s.consumed ++ [a] := by
    rw [consumed, hreturned, List.map_append]
    rfl
  have hrest : s'.unconsumed = s.unconsumed.filter (· ≠ a) := by
    rw [unconsumed, unconsumed, hconsumed, harrived, List.filter_filter]
    apply List.filter_congr
    intro b _
    by_cases hb : b = a <;> simp [hb]
  rw [hrest]
  exact takeFirst_of_find? (h.nodup.filter _) hfind

/-- The queues after `a` has been returned.  It is taken out of its own. -/
theorem Inv.queue_consumed (h : s.Inv) {comm : Nat} (hl : s.mailbox.queue comm = some l)
    (ha : comm = a.message.comm → l' = l.filter (· ≠ a)) (hne : comm ≠ a.message.comm → l' = l) :
    l' = (s.probed.filter fun b => b.message.comm = comm).filter (· ∉ s.consumed ++ [a]) := by
  have hsplit : (s.probed.filter fun b => b.message.comm = comm).filter
      (· ∉ s.consumed ++ [a]) = l.filter (· ≠ a) := by
    rw [h.kept.queue comm l hl, List.filter_filter (l := List.filter _ s.probed)]
    apply List.filter_congr
    intro b _
    by_cases hb : b = a <;> simp [hb]
  rw [hsplit]
  by_cases hcomm : comm = a.message.comm
  · exact ha hcomm
  · rw [hne hcomm, eq_comm, List.filter_eq_self]
    intro b hb
    rw [h.kept.queue comm l hl] at hb
    have hother := List.of_mem_filter (List.mem_of_mem_filter hb)
    refine decide_eq_true ?_
    rintro rfl
    exact hcomm (of_decide_eq_true hother).symm

/-- The search of the queue returns a message. -/
theorem inv_found (h : s.Inv) (hl : s.mailbox.queue pat.comm = some l)
    (htake : takeFirst pat.Matches l = some (a, l')) :
    (s.finish pat a (s.mailbox.setQueue pat.comm l')).Inv := by
  have hqueue := h.kept.queue _ _ hl
  have hmem : a ∈ l := mem_of_takeFirst htake
  have hmatch : pat.Matches a = true := of_takeFirst htake
  have hcomm := Pattern.comm_of_matches hmatch
  have hnodup : l.Nodup := by
    rw [hqueue]
    exact ((List.Nodup.of_append_left h.nodup).filter _).filter _
  have hfresh : a ∉ s.consumed ∧ a ∈ s.probed := by
    rw [hqueue] at hmem
    obtain ⟨hmem, hnot⟩ := List.mem_filter.mp hmem
    exact ⟨of_decide_eq_true hnot, List.mem_of_mem_filter hmem⟩
  have hrest : l' = l.filter (· ≠ a) := by
    have hfirst := takeFirst_of_find? hnodup (find?_of_takeFirst htake)
    rw [htake] at hfirst
    cases hfirst
    rfl
  have hconsumed : (s.finish pat a (s.mailbox.setQueue pat.comm l')).consumed =
      s.consumed ++ [a] := List.map_append
  refine ⟨h.nodup, h.seq, ⟨?_, ?_, ?_, ?_, ?_⟩, ?_⟩
  · rw [hconsumed]
    exact List.nodup_append'.mpr ⟨h.kept.nodup, List.nodup_singleton a, by simpa using hfresh.1⟩
  · rw [hconsumed]
    exact List.append_subset.mpr ⟨h.kept.probed, List.cons_subset.mpr
      ⟨hfresh.2, List.nil_subset _⟩⟩
  · intro r hr
    rcases List.mem_append.mp hr with hr | hr
    · exact h.kept.matched r hr
    · rw [List.mem_singleton.mp hr]
      exact hmatch
  · intro comm l'' hl''
    rw [hconsumed]
    change (s.mailbox.setQueue pat.comm l').queue comm = some l'' at hl''
    by_cases heq : comm = pat.comm
    · subst heq
      rw [Mailbox.setQueue_self] at hl''
      cases hl''
      exact h.queue_consumed hl (fun _ => hrest) fun hne => absurd hcomm.symm hne
    · rw [Mailbox.setQueue_ne _ _ heq] at hl''
      exact h.queue_consumed hl'' (fun hsame => absurd (hsame.trans hcomm) heq) fun _ => rfl
  · intro b hb hnot
    rw [hconsumed, List.mem_append, not_or] at hnot
    have hknown := h.kept.known b hb hnot.1
    show ((s.mailbox.setQueue pat.comm l').queue b.message.comm).isSome
    by_cases heq : b.message.comm = pat.comm
    · rw [heq, Mailbox.setQueue_self]
      rfl
    · rwa [Mailbox.setQueue_ne _ _ heq]
  · intro pat' hpat'
    cases hpat'

/-- The next message in MPI is not known to the process yet. -/
theorem Inv.fresh (h : s.Inv) (hincoming : s.mailbox.incoming = a :: rest) :
    a ∉ s.probed ∧ a ∉ s.consumed ∧ s.probed ++ [a] ++ rest = s.arrived := by
  have harrived : s.arrived = s.probed ++ a :: rest := by rw [arrived, hincoming]
  have hprobed : a ∉ s.probed := by
    intro hmem
    have hnodup := h.nodup
    rw [harrived] at hnodup
    exact List.disjoint_of_nodup_append hnodup hmem List.mem_cons_self
  exact ⟨hprobed, fun hmem => hprobed (h.kept.probed hmem), by rw [harrived]; simp⟩

/-- A probe returns a message. -/
theorem inv_probed (h : s.Inv) (hincoming : s.mailbox.incoming = a :: rest)
    (hmatch : pat.Matches a = true) :
    ({ s with
        mailbox := ⟨rest, s.mailbox.queue⟩
        probed := s.probed ++ [a]
        calling := none
        returned := s.returned ++ [(pat, a)] } : Reception).Inv := by
  obtain ⟨hprobed, hfresh, harrived⟩ := h.fresh hincoming
  have hconsumed : (s.returned ++ [(pat, a)]).map Prod.snd = s.consumed ++ [a] :=
    List.map_append
  refine ⟨?_, ?_, ⟨?_, ?_, ?_, ?_, ?_⟩, ?_⟩
  · show (s.probed ++ [a] ++ rest).Nodup
    rw [harrived]
    exact h.nodup
  · show ∀ b ∈ s.probed ++ [a] ++ rest, b.seq < (s.probed ++ [a] ++ rest).length
    rw [harrived]
    exact h.seq
  · show ((s.returned ++ [(pat, a)]).map Prod.snd).Nodup
    rw [hconsumed]
    exact List.nodup_append'.mpr ⟨h.kept.nodup, List.nodup_singleton a, by simpa using hfresh⟩
  · show (s.returned ++ [(pat, a)]).map Prod.snd ⊆ s.probed ++ [a]
    rw [hconsumed]
    exact List.append_subset.mpr ⟨fun b hb => List.mem_append_left _ (h.kept.probed hb),
      List.subset_append_right _ _⟩
  · intro r hr
    rcases List.mem_append.mp hr with hr | hr
    · exact h.kept.matched r hr
    · rw [List.mem_singleton.mp hr]
      exact hmatch
  · intro comm l hl
    show l = ((s.probed ++ [a]).filter fun b => b.message.comm = comm).filter
      (· ∉ (s.returned ++ [(pat, a)]).map Prod.snd)
    have hlast : ([a].filter fun b => b.message.comm = comm).filter (· ∉ s.consumed ++ [a]) =
        [] := by
      rw [List.filter_eq_nil_iff]
      intro b hb
      simp [List.mem_singleton.mp (List.mem_of_mem_filter hb)]
    rw [hconsumed, List.filter_append, List.filter_append, hlast, List.append_nil]
    refine h.queue_consumed hl (fun _ => ?_) fun _ => rfl
    rw [eq_comm, List.filter_eq_self]
    intro b hb
    rw [h.kept.queue comm l hl] at hb
    refine decide_eq_true ?_
    rintro rfl
    exact hprobed (List.mem_of_mem_filter (List.mem_of_mem_filter hb))
  · intro b hb hnot
    change b ∉ (s.returned ++ [(pat, a)]).map Prod.snd at hnot
    rw [hconsumed, List.mem_append, not_or] at hnot
    rcases List.mem_append.mp hb with hb | hb
    · exact h.kept.known b hb hnot.1
    · exact absurd hb hnot.2
  · intro pat' hpat'
    cases hpat'

/-- A probe stores a message. -/
theorem inv_stored (h : s.Inv) (hincoming : s.mailbox.incoming = a :: rest)
    (hcalling : s.calling = some pat) (hmatch : pat.Matches a = false)
    (hstore : (⟨rest, s.mailbox.queue⟩ : Mailbox).storeMessage a = some mb) :
    ({ s with mailbox := mb, probed := s.probed ++ [a] } : Reception).Inv := by
  obtain ⟨hprobed, hfresh, harrived⟩ := h.fresh hincoming
  obtain ⟨l₀, hl₀, hmb⟩ := Option.map_eq_some_iff.mp hstore
  have hrest : mb.incoming = rest := by
    rw [← hmb]
    rfl
  have hself : mb.queue a.message.comm = some (l₀ ++ [a]) := by
    rw [← hmb]
    exact Mailbox.setQueue_self _ _ _
  have hother : ∀ comm, comm ≠ a.message.comm → mb.queue comm = s.mailbox.queue comm := by
    intro comm hne
    rw [← hmb]
    exact Mailbox.setQueue_ne _ _ hne
  refine ⟨?_, ?_, ⟨h.kept.nodup, ?_, h.kept.matched, ?_, ?_⟩, ?_⟩
  · show (s.probed ++ [a] ++ mb.incoming).Nodup
    rw [hrest, harrived]
    exact h.nodup
  · show ∀ b ∈ s.probed ++ [a] ++ mb.incoming, b.seq < (s.probed ++ [a] ++ mb.incoming).length
    rw [hrest, harrived]
    exact h.seq
  · exact fun b hb => List.mem_append_left _ (h.kept.probed hb)
  · intro comm l hl
    show l = ((s.probed ++ [a]).filter fun b => b.message.comm = comm).filter (· ∉ s.consumed)
    rw [List.filter_append, List.filter_append]
    by_cases hcomm : comm = a.message.comm
    · subst hcomm
      change mb.queue a.message.comm = some l at hl
      rw [hself] at hl
      cases hl
      rw [h.kept.queue _ _ hl₀]
      simp [hfresh]
    · change mb.queue comm = some l at hl
      rw [hother comm hcomm] at hl
      have hne : ¬ a.message.comm = comm := fun heq => hcomm heq.symm
      rw [h.kept.queue comm l hl]
      simp [hne]
  · intro b hb hnot
    show (mb.queue b.message.comm).isSome
    by_cases hcomm : b.message.comm = a.message.comm
    · rw [hcomm, hself]
      rfl
    · rw [hother _ hcomm]
      rcases List.mem_append.mp hb with hb | hb
      · exact h.kept.known b hb hnot
      · rw [List.mem_singleton.mp hb] at hcomm
        exact absurd rfl hcomm
  · intro pat' hpat'
    change s.calling = some pat' at hpat'
    rw [hcalling] at hpat'
    cases hpat'
    obtain ⟨l, hl, hnone⟩ := h.waiting pat hcalling
    by_cases hcomm : pat.comm = a.message.comm
    · refine ⟨l₀ ++ [a], hcomm ▸ hself, ?_⟩
      intro b hb
      rcases List.mem_append.mp hb with hb | hb
      · rw [hcomm, hl₀] at hl
        cases hl
        exact hnone b hb
      · rw [List.mem_singleton.mp hb]
        exact hmatch
    · exact ⟨l, (hother _ hcomm).trans hl, hnone⟩

/-- A message arrives. -/
theorem inv_arrive (h : s.Inv) (m : DataMessage) :
    ({ s with mailbox := s.mailbox.arrive ⟨s.arrived.length, m⟩ } : Reception).Inv := by
  let a : Arrival := ⟨s.arrived.length, m⟩
  have harrived : s.probed ++ (s.mailbox.incoming ++ [a]) = s.arrived ++ [a] :=
    (List.append_assoc _ _ _).symm
  have hfresh : a ∉ s.arrived := fun hmem => Nat.lt_irrefl _ (h.seq a hmem)
  refine ⟨?_, ?_, ⟨h.kept.nodup, h.kept.probed, h.kept.matched, h.kept.queue, h.kept.known⟩,
    h.waiting⟩
  · show (s.probed ++ (s.mailbox.incoming ++ [a])).Nodup
    rw [harrived]
    exact List.nodup_append'.mpr ⟨h.nodup, List.nodup_singleton a, by simpa using hfresh⟩
  · show ∀ b ∈ s.probed ++ (s.mailbox.incoming ++ [a]),
      b.seq < (s.probed ++ (s.mailbox.incoming ++ [a])).length
    rw [harrived, List.length_append]
    intro b hb
    rcases List.mem_append.mp hb with hb | hb
    · exact Nat.lt_succ_of_lt (h.seq b hb)
    · rw [List.mem_singleton.mp hb]
      exact Nat.lt_succ_self _

/-- A communicator is created, for which there is no message. -/
theorem inv_create (h : s.Inv) {comm : Nat} (hnone : s.mailbox.queue comm = none) :
    ({ s with mailbox := s.mailbox.setQueue comm [] } : Reception).Inv := by
  refine ⟨h.nodup, h.seq,
    ⟨h.kept.nodup, h.kept.probed, h.kept.matched, ?_, ?_⟩, ?_⟩
  · intro comm' l hl
    change (s.mailbox.setQueue comm []).queue comm' = some l at hl
    by_cases hcomm : comm' = comm
    · subst hcomm
      rw [Mailbox.setQueue_self] at hl
      cases hl
      rw [eq_comm, List.filter_eq_nil_iff]
      intro b hb hnot
      obtain ⟨hmem, hcomm⟩ := List.mem_filter.mp hb
      have hknown := h.kept.known b hmem (of_decide_eq_true hnot)
      rw [of_decide_eq_true hcomm, hnone] at hknown
      cases hknown
    · rw [Mailbox.setQueue_ne _ _ hcomm] at hl
      exact h.kept.queue comm' l hl
  · intro b hb hnot
    have hknown := h.kept.known b hb hnot
    show ((s.mailbox.setQueue comm []).queue b.message.comm).isSome
    by_cases hcomm : b.message.comm = comm
    · rw [hcomm, Mailbox.setQueue_self]
      rfl
    · rwa [Mailbox.setQueue_ne _ _ hcomm]
  · intro pat hpat
    obtain ⟨l, hl, hmatch⟩ := h.waiting pat hpat
    have hcomm : pat.comm ≠ comm := by
      rintro rfl
      rw [hnone] at hl
      cases hl
    exact ⟨l, (Mailbox.setQueue_ne _ _ hcomm).trans hl, hmatch⟩

/-- What an event does. -/
inductive Stepped (s : Reception) : Reception → Prop where
  | arrived (m : DataMessage) :
      Stepped s { s with mailbox := s.mailbox.arrive ⟨s.arrived.length, m⟩ }
  | created {comm : Nat} (hnone : s.mailbox.queue comm = none) :
      Stepped s { s with mailbox := s.mailbox.setQueue comm [] }
  | found {pat : Pattern} {a : Arrival} {l l' : List Arrival}
      (hl : s.mailbox.queue pat.comm = some l)
      (htake : takeFirst pat.Matches l = some (a, l')) :
      Stepped s (s.finish pat a (s.mailbox.setQueue pat.comm l'))
  | waits {pat : Pattern} {l : List Arrival} (hl : s.mailbox.queue pat.comm = some l)
      (hnone : ∀ a ∈ l, pat.Matches a = false) : Stepped s { s with calling := some pat }
  | probed {pat : Pattern} {a : Arrival} {rest : List Arrival} (hcalling : s.calling = some pat)
      (hincoming : s.mailbox.incoming = a :: rest) (hmatch : pat.Matches a = true) :
      Stepped s
        { s with
          mailbox := ⟨rest, s.mailbox.queue⟩
          probed := s.probed ++ [a]
          calling := none
          returned := s.returned ++ [(pat, a)] }
  | stored {pat : Pattern} {a : Arrival} {rest : List Arrival} {mb : Mailbox}
      (hcalling : s.calling = some pat) (hincoming : s.mailbox.incoming = a :: rest)
      (hmatch : pat.Matches a = false)
      (hstore : (⟨rest, s.mailbox.queue⟩ : Mailbox).storeMessage a = some mb) :
      Stepped s { s with mailbox := mb, probed := s.probed ++ [a] }

theorem step_cases {e : ReceptionEvent} (hstep : s.step e = some s') : s.Stepped s' := by
  cases e with
  | arrive m =>
      cases hstep
      exact .arrived m
  | create comm =>
      rw [step] at hstep
      split at hstep
      · next hnone =>
        cases hstep
        exact .created hnone
      · cases hstep
  | receive pat =>
      rw [step] at hstep
      split at hstep
      · next hidle =>
        obtain ⟨l, hl⟩ := Option.isSome_iff_exists.mp hidle.2
        rw [Mailbox.findPendingMessage, hl, Option.bind_some] at hstep
        cases htake : takeFirst pat.Matches l with
        | none =>
            rw [htake] at hstep
            cases hstep
            exact .waits hl (takeFirst_eq_none_iff.mp htake)
        | some r =>
            rw [htake] at hstep
            cases hstep
            exact .found hl htake
      · cases hstep
  | probe =>
      rw [step] at hstep
      split at hstep
      · next pat a rest hcalling hincoming =>
        by_cases hmatch : pat.Matches a = true
        · simp only [if_pos hmatch] at hstep
          cases hstep
          exact .probed hcalling hincoming hmatch
        · simp only [if_neg hmatch] at hstep
          obtain ⟨mb, hstore, hmb⟩ := Option.map_eq_some_iff.mp hstep
          cases hmb
          exact .stored hcalling hincoming (Bool.eq_false_iff.mpr hmatch) hstore
      · cases hstep

/-- **One event** keeps the invariant. -/
theorem inv_step (h : s.Inv) {e : ReceptionEvent} (hstep : s.step e = some s') : s'.Inv := by
  cases step_cases hstep with
  | arrived m => exact inv_arrive h m
  | created hnone => exact inv_create h hnone
  | found hl htake => exact inv_found h hl htake
  | waits hl hnone =>
      refine ⟨h.nodup, h.seq,
        ⟨h.kept.nodup, h.kept.probed, h.kept.matched, h.kept.queue, h.kept.known⟩, ?_⟩
      intro pat hpat
      cases hpat
      exact ⟨_, hl, hnone⟩
  | probed hcalling hincoming hmatch => exact inv_probed h hincoming hmatch
  | stored hcalling hincoming hmatch hstore => exact inv_stored h hincoming hcalling hmatch hstore

theorem inv_of_reachable (h : Reachable s) : s.Inv := by
  induction h with
  | start known => exact inv_start known
  | step _ hstep ih => exact inv_step ih hstep

/-- **Blocking receives.**  In every run, nothing gets lost, and a call returns the message
that arrived first among all that match and have not been returned. -/
theorem receivesEarliest_of_reachable (h : Reachable s) : s.ReceivesEarliest := by
  have hinv := inv_of_reachable h
  refine ⟨hinv.kept, ?_⟩
  intro e s' pat a hstep hreturned
  have hsame : ∀ {returned}, returned = s.returned → returned ≠ s.returned ++ [(pat, a)] := by
    rintro _ rfl heq
    simpa using congrArg List.length heq
  have hlast : ∀ {pat' a'}, s.returned ++ [(pat', a')] = s.returned ++ [(pat, a)] →
      pat = pat' ∧ a = a' := by
    intro pat' a' heq
    obtain ⟨rfl, rfl⟩ := Prod.mk.inj (List.singleton_inj.mp (List.append_cancel_left heq))
    exact ⟨rfl, rfl⟩
  cases step_cases hstep with
  | arrived m => exact absurd hreturned (hsame rfl)
  | created hnone => exact absurd hreturned (hsame rfl)
  | waits hl hnone => exact absurd hreturned (hsame rfl)
  | stored hcalling hincoming hmatch hstore => exact absurd hreturned (hsame rfl)
  | found hl htake =>
      obtain ⟨rfl, rfl⟩ := hlast hreturned
      refine hinv.earliest hl ?_ rfl rfl
      rw [Mailbox.contents, hl, Option.getD_some, List.find?_append, find?_of_takeFirst htake]
      rfl
  | probed hcalling hincoming hmatch =>
      obtain ⟨rfl, rfl⟩ := hlast hreturned
      obtain ⟨l, hl, hnone⟩ := hinv.waiting _ hcalling
      obtain ⟨_, _, harrived⟩ := hinv.fresh hincoming
      refine hinv.earliest hl ?_ harrived rfl
      have hqueue : l.find? (Pattern.Matches pat) = none :=
        List.find?_eq_none.mpr fun b hb => by simp [hnone b hb]
      rw [Mailbox.contents, hl, Option.getD_some, List.find?_append, hqueue, hincoming,
        List.filter_cons, if_pos (decide_eq_true (Pattern.comm_of_matches hmatch)),
        List.find?_cons_of_pos hmatch]
      rfl

/-- Some events in a row. -/
def run (s : Reception) (events : List ReceptionEvent) : Option Reception :=
  events.foldlM step s

theorem reachable_run {events : List ReceptionEvent} (h : Reachable s)
    (hrun : s.run events = some s') : Reachable s' := by
  induction events generalizing s with
  | nil =>
      cases hrun
      exact h
  | cons e events ih =>
      obtain ⟨s₁, hstep, hrest⟩ := Option.bind_eq_some_iff.mp hrun
      exact ih (h.step hstep) hrest

/-- A message for communicator `comm`. -/
def messageFor (comm : Nat) (source tag : Int) : DataMessage :=
  createDataMessage (setPid 1 0) opcodeData (setPid 0 0) comm source 0 tag 0 []

/-- A message for communicator 3 comes before two for communicator 0. -/
theorem receivesEarliest_twoCommunicators :
    ∃ s, (start fun h => h = 0 || h = 3).run
        [.receive ⟨0, empiAnySource, 5⟩, .arrive (messageFor 3 1 7), .arrive (messageFor 0 1 5),
          .probe, .arrive (messageFor 0 2 5), .probe, .receive ⟨3, 1, empiAnyTag⟩] = some s ∧
      s.consumed = [⟨1, messageFor 0 1 5⟩, ⟨0, messageFor 3 1 7⟩] ∧ s.ReceivesEarliest := by
  refine Exists.imp (fun s h => ⟨h, ?_, receivesEarliest_of_reachable
    (reachable_run (.start _) h)⟩) ⟨_, rfl⟩
  cases h
  rfl

end Steps

/-! ### The calls -/

/-- Some probes in a row. -/
def probes : Nat → Reception → Option Reception
  | 0, s => some s
  | n + 1, s => (s.step .probe).bind (probes n)

/-- The loop of a call is a row of probes. -/
theorem probes_of_probeIncoming {pat : Pattern} {a : Arrival} {mb : Mailbox}
    {incoming : List Arrival} {s : Reception} (hcalling : s.calling = some pat)
    (hincoming : s.mailbox.incoming = incoming)
    (hfound : Mailbox.probeIncoming pat true s.mailbox.queue incoming = .found a mb) :
    ∃ n s', probes n s = some s' ∧ s'.calling = none ∧ s'.mailbox = mb ∧
      s'.returned = s.returned ++ [(pat, a)] := by
  induction incoming generalizing s with
  | nil => cases hfound
  | cons b rest ih =>
      rw [Mailbox.probeIncoming] at hfound
      by_cases hb : pat.Matches b = true
      · rw [if_pos hb] at hfound
        cases hfound
        let s₁ : Reception := { s with probed := s.probed ++ [a] }
        refine ⟨1, s₁.finish pat a ⟨rest, s.mailbox.queue⟩, ?_, rfl, rfl, rfl⟩
        simp only [probes, step, hcalling, hincoming, if_pos hb, Option.bind_some]
        rfl
      · rw [if_neg hb] at hfound
        cases hstore : Mailbox.storeMessage ⟨rest, s.mailbox.queue⟩ b with
        | none =>
            rw [hstore] at hfound
            cases hfound
        | some mb₁ =>
            simp only [hstore, if_true] at hfound
            have hnext : s.step .probe =
                some { s with mailbox := mb₁, probed := s.probed ++ [b] } := by
              simp only [step, hcalling, hincoming, if_neg hb, hstore, Option.map_some]
            have hrest : mb₁.incoming = rest := by
              rw [← Mailbox.incoming_storeMessage hstore]
            obtain ⟨n, s', hprobes, hdone⟩ := ih (s := { s with
              mailbox := mb₁, probed := s.probed ++ [b] }) hcalling hrest hfound
            exact ⟨n + 1, s', by rw [probes, hnext]; exact hprobes, hdone⟩

/-- **`messaging_receive`** with all messages there is a call and its probes: it unpacks the
message that they return. -/
theorem messagingReceive_eq {α : Type} {pk : Packing α} {c : Communicator} {buf : List α}
    {count : Nat} {type source tag : Int} {s : Reception} {mb : Mailbox}
    {result : List α × Status} (hidle : s.calling = none)
    (hknown : (s.mailbox.queue c.handle).isSome)
    (h : messagingReceive pk c buf count type source tag s.mailbox = .done result mb) :
    ∃ a n s₁ s', s.step (.receive ⟨c.handle, source, tag⟩) = some s₁ ∧ probes n s₁ = some s' ∧
      s'.calling = none ∧ s'.mailbox = mb ∧
        s'.returned = s.returned ++ [(⟨c.handle, source, tag⟩, a)] ∧
          unpackMessage pk buf count type a.message = some result := by
  rw [messagingReceive] at h
  cases hpoll : s.mailbox.poll ⟨c.handle, source, tag⟩ true with
  | pending mb' => simp [hpoll] at h
  | crashed => simp [hpoll] at h
  | found a mb' =>
      simp only [hpoll] at h
      cases hunpack : unpackMessage pk buf count type a.message with
      | none => simp [hunpack] at h
      | some result' =>
          simp only [hunpack] at h
          cases h
          rw [Mailbox.poll] at hpoll
          cases hpending : s.mailbox.findPendingMessage ⟨c.handle, source, tag⟩ with
          | some r =>
              simp only [hpending] at hpoll
              cases hpoll
              refine ⟨r.1, 0, s.finish ⟨c.handle, source, tag⟩ r.1 r.2, _, ?_, rfl, rfl, rfl, rfl,
                hunpack⟩
              simp only [step, hidle, hknown, hpending]
              rfl
          | none =>
              simp only [hpending] at hpoll
              let s₁ : Reception := { s with calling := some ⟨c.handle, source, tag⟩ }
              obtain ⟨n, s', hprobes, hdone, hmailbox, hreturned⟩ :=
                probes_of_probeIncoming (s := s₁) rfl rfl hpoll
              refine ⟨a, n, s₁, s', ?_, hprobes, hdone, hmailbox, hreturned, hunpack⟩
              simp only [step, hidle, hknown, hpending]
              rfl

end Reception

end EsalsaMpi
