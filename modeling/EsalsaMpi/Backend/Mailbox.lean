import EsalsaMpi.Backend.Messaging

/-!
# Arrived messages

The gateways send the messages for a process to it over the MPI library of its
cluster, where they wait until the process probes for them.  A receive first
searches the queue of its communicator; then it takes messages one by one and
stores in their queues those that do not match.

To the receives of one communicator the two places are one: a list of what has
arrived and is not consumed (`Mailbox.contents`).  A receive removes its first
match from this list (`Mailbox.poll_found`), and storing messages does not
change it (`Mailbox.poll_pending`).
-/

namespace EsalsaMpi

open MatchQueue

/-- A message in the memory of the process that it is for; `seq` tells the
messages apart, and counts them in the order in which they arrived. -/
structure Arrival where
  seq : Nat
  message : DataMessage
deriving DecidableEq, Repr

/-- What a receive asks for. -/
structure Pattern where
  comm : Nat
  source : Int
  tag : Int
deriving DecidableEq, Repr

/-- `match_message` for a receive. -/
def Pattern.Matches (pat : Pattern) (a : Arrival) : Bool :=
  matchMessage a.message pat.comm pat.source pat.tag

theorem Pattern.comm_of_matches {pat : Pattern} {a : Arrival} (h : pat.Matches a = true) :
    a.message.comm = pat.comm :=
  (matchMessage_eq_true_iff.mp h).1.symm

/-- The messages that no probe has found yet, and the queue of each
communicator; `none` for a handle that is not in the table `comms`. -/
structure Mailbox where
  incoming : List Arrival
  queue : Nat → Option (List Arrival)

/-- The outcome of a search.  It is `pending` when there was nothing to find,
and `crashed` when the process ended in `ERROR`. -/
inductive Probe where
  | found (a : Arrival) (mb : Mailbox)
  | pending (mb : Mailbox)
  | crashed

namespace Mailbox

/-- The mailbox with another queue for one communicator. -/
def setQueue (mb : Mailbox) (comm : Nat) (l : List Arrival) : Mailbox :=
  { mb with queue := fun h => if h = comm then some l else mb.queue h }

@[simp] theorem setQueue_self (mb : Mailbox) (comm : Nat) (l : List Arrival) :
    (mb.setQueue comm l).queue comm = some l := if_pos rfl

@[simp] theorem setQueue_ne (mb : Mailbox) {comm h : Nat} (l : List Arrival) (hne : h ≠ comm) :
    (mb.setQueue comm l).queue h = mb.queue h := if_neg hne

@[simp] theorem setQueue_incoming (mb : Mailbox) (comm : Nat) (l : List Arrival) :
    (mb.setQueue comm l).incoming = mb.incoming := rfl

/-- `store_message`. -/
def storeMessage (mb : Mailbox) (a : Arrival) : Option Mailbox :=
  (mb.queue a.message.comm).map fun l => mb.setQueue a.message.comm (l ++ [a])

/-- `find_pending_message`. -/
def findPendingMessage (mb : Mailbox) (pat : Pattern) : Option (Arrival × Mailbox) :=
  (mb.queue pat.comm).bind fun l =>
    (takeFirst pat.Matches l).map fun r => (r.1, mb.setQueue pat.comm r.2)

/-- The loop of `messaging_probe_receive` over the messages that have arrived:
one of them unless the call is `blocking`.  A blocking call that is `pending`
waits for the next message. -/
def probeIncoming (pat : Pattern) (blocking : Bool) (queue : Nat → Option (List Arrival)) :
    List Arrival → Probe
  | [] => .pending ⟨[], queue⟩
  | a :: rest =>
    if pat.Matches a then
      .found a ⟨rest, queue⟩
    else
      match storeMessage ⟨rest, queue⟩ a with
      | none => .crashed
      | some mb => if blocking then probeIncoming pat blocking mb.queue rest else .pending mb

/-- The search of `messaging_probe_receive`, and with `blocking` that of
`messaging_receive`. -/
def poll (mb : Mailbox) (pat : Pattern) (blocking : Bool) : Probe :=
  match mb.findPendingMessage pat with
  | some (a, mb') => .found a mb'
  | none => probeIncoming pat blocking mb.queue mb.incoming

/-- A search for `pat` would find a message: in the queue, or among those that
have arrived, of which a search that does not block looks at the first. -/
def Offers (mb : Mailbox) (pat : Pattern) (blocking : Bool) : Prop :=
  (∃ a ∈ (mb.queue pat.comm).getD [], pat.Matches a = true) ∨
    ∃ a ∈ (if blocking then mb.incoming else mb.incoming.take 1), pat.Matches a = true

/-- What has arrived for a communicator and is not consumed. -/
def contents (mb : Mailbox) (comm : Nat) : List Arrival :=
  (mb.queue comm).getD [] ++ mb.incoming.filter fun a => a.message.comm = comm

/-- The gateway's message `a` has arrived. -/
def arrive (mb : Mailbox) (a : Arrival) : Mailbox :=
  { mb with incoming := mb.incoming ++ [a] }

theorem contents_arrive (mb : Mailbox) (a : Arrival) (comm : Nat) :
    (mb.arrive a).contents comm =
      mb.contents comm ++ if a.message.comm = comm then [a] else [] := by
  unfold contents arrive
  by_cases h : a.message.comm = comm <;> simp [h]

/-- Storing a message keeps what there is. -/
theorem contents_storeMessage {mb mb' : Mailbox} {a : Arrival}
    (h : mb.storeMessage a = some mb') (comm : Nat) :
    mb'.contents comm = ({ mb with incoming := a :: mb.incoming } : Mailbox).contents comm := by
  obtain ⟨l, hl, rfl⟩ := Option.map_eq_some_iff.mp h
  unfold contents
  by_cases hc : comm = a.message.comm
  · subst hc
    simp [hl]
  · have hne : ¬ a.message.comm = comm := fun heq => hc heq.symm
    simp [hc, hne]

/-- A message that does not match is stored without harm to a search that has
found nothing. -/
theorem storeMessage_noMatch {mb mb' : Mailbox} {pat : Pattern} {a : Arrival}
    (h : mb.storeMessage a = some mb') (ha : pat.Matches a = false)
    (hqueue : ∀ b ∈ (mb.queue pat.comm).getD [], pat.Matches b = false) :
    ∀ b ∈ (mb'.queue pat.comm).getD [], pat.Matches b = false := by
  obtain ⟨l, hl, rfl⟩ := Option.map_eq_some_iff.mp h
  intro b hb
  by_cases hc : pat.comm = a.message.comm
  · rw [hc, setQueue_self, Option.getD_some, List.mem_append, List.mem_singleton] at hb
    rcases hb with hb | rfl
    · exact hqueue b (by rw [hc, hl]; exact hb)
    · exact ha
  · rw [setQueue_ne _ _ hc] at hb
    exact hqueue b hb

/-- Storing leaves the messages alone that no probe has found. -/
theorem incoming_storeMessage {incoming : List Arrival} {queue : Nat → Option (List Arrival)}
    {mb' : Mailbox} {a : Arrival} (h : storeMessage ⟨incoming, queue⟩ a = some mb') :
    (⟨incoming, mb'.queue⟩ : Mailbox) = mb' := by
  obtain ⟨l, _, rfl⟩ := Option.map_eq_some_iff.mp h
  rfl

variable {mb mb' : Mailbox} {pat : Pattern} {blocking : Bool} {a : Arrival}

/-- What `find_pending_message` removes. -/
theorem findPendingMessage_eq_some (h : mb.findPendingMessage pat = some (a, mb')) :
    takeFirst pat.Matches (mb.contents pat.comm) = some (a, mb'.contents pat.comm) ∧
      ∀ comm, comm ≠ pat.comm → mb'.contents comm = mb.contents comm := by
  obtain ⟨l, hl, h⟩ := Option.bind_eq_some_iff.mp h
  obtain ⟨⟨b, l'⟩, htake, hb⟩ := Option.map_eq_some_iff.mp h
  cases hb
  refine ⟨?_, ?_⟩
  · obtain ⟨l₁, l₂, rfl, rfl, ha, hnone⟩ := takeFirst_eq_some_iff.mp htake
    apply takeFirst_eq_some_iff.mpr
    exact ⟨l₁, l₂ ++ mb.incoming.filter fun a => a.message.comm = pat.comm,
      by simp [contents, hl], by simp [contents], ha, hnone⟩
  · intro comm hne
    simp [contents, hne]

/-- Nothing that `find_pending_message` searches matches when it finds nothing. -/
theorem findPendingMessage_eq_none (h : mb.findPendingMessage pat = none) :
    ∀ b ∈ (mb.queue pat.comm).getD [], pat.Matches b = false := by
  cases hl : mb.queue pat.comm with
  | none => simp
  | some l =>
      have hnone : takeFirst pat.Matches l = none := by
        simpa [findPendingMessage, hl] using h
      exact takeFirst_eq_none_iff.mp hnone

/-- The loop over the arrived messages, for a queue in which nothing matches. -/
theorem probeIncoming_found {incoming : List Arrival} {queue : Nat → Option (List Arrival)}
    (hqueue : ∀ b ∈ (queue pat.comm).getD [], pat.Matches b = false)
    (h : probeIncoming pat blocking queue incoming = .found a mb') :
    takeFirst pat.Matches (contents ⟨incoming, queue⟩ pat.comm) =
        some (a, mb'.contents pat.comm) ∧
      ∀ comm, comm ≠ pat.comm → mb'.contents comm = contents ⟨incoming, queue⟩ comm := by
  induction incoming generalizing queue with
  | nil => cases h
  | cons b rest ih =>
      unfold probeIncoming at h
      by_cases hb : pat.Matches b = true
      · rw [if_pos hb] at h
        cases h
        have hcomm := Pattern.comm_of_matches hb
        refine ⟨?_, ?_⟩
        · apply takeFirst_eq_some_iff.mpr
          refine ⟨(queue pat.comm).getD [], _, ?_, rfl, hb, hqueue⟩
          simp [contents, hcomm]
        · intro comm hne
          have hne' : ¬ a.message.comm = comm := fun heq => hne (heq ▸ hcomm)
          simp [contents, hne']
      · rw [if_neg hb] at h
        cases hstore : storeMessage ⟨rest, queue⟩ b with
        | none => simp [hstore] at h
        | some stored =>
            cases blocking with
            | false => simp [hstore] at h
            | true =>
                simp only [hstore, if_true] at h
                have hkeep := contents_storeMessage hstore
                have hrest := storeMessage_noMatch hstore (Bool.eq_false_iff.mpr hb) hqueue
                obtain ⟨htake, hothers⟩ := ih hrest h
                rw [incoming_storeMessage hstore] at htake hothers
                refine ⟨hkeep pat.comm ▸ htake, ?_⟩
                intro comm hne
                exact (hothers comm hne).trans (hkeep comm)

theorem probeIncoming_pending {incoming : List Arrival}
    {queue : Nat → Option (List Arrival)}
    (h : probeIncoming pat blocking queue incoming = .pending mb') (comm : Nat) :
    mb'.contents comm = contents ⟨incoming, queue⟩ comm := by
  induction incoming generalizing queue with
  | nil =>
      cases h
      rfl
  | cons b rest ih =>
      unfold probeIncoming at h
      split at h
      · cases h
      · next hb =>
        cases hstore : storeMessage ⟨rest, queue⟩ b with
        | none => simp [hstore] at h
        | some stored =>
            have hkeep := contents_storeMessage hstore comm
            cases blocking with
            | false =>
                simp only [hstore, Bool.false_eq_true, if_false] at h
                cases h
                exact hkeep
            | true =>
                simp only [hstore, if_true] at h
                have hrest := ih h
                rw [incoming_storeMessage hstore] at hrest
                exact hrest.trans hkeep

/-- **A search that finds a message** removes the first match among what there
is for its communicator, and nothing else. -/
theorem poll_found (h : mb.poll pat blocking = .found a mb') :
    takeFirst pat.Matches (mb.contents pat.comm) = some (a, mb'.contents pat.comm) ∧
      ∀ comm, comm ≠ pat.comm → mb'.contents comm = mb.contents comm := by
  unfold poll at h
  cases hpending : mb.findPendingMessage pat with
  | some r =>
      simp only [hpending] at h
      cases h
      exact findPendingMessage_eq_some hpending
  | none =>
      simp only [hpending] at h
      exact probeIncoming_found (findPendingMessage_eq_none hpending) h

/-- **A search that finds nothing** keeps what there is. -/
theorem poll_pending (h : mb.poll pat blocking = .pending mb') (comm : Nat) :
    mb'.contents comm = mb.contents comm := by
  unfold poll at h
  cases hpending : mb.findPendingMessage pat with
  | some r => simp [hpending] at h
  | none =>
      simp only [hpending] at h
      exact probeIncoming_pending h comm

/-- A mailbox after a search: it has the same queues, and no message that was not
there. -/
structure Searched (mb mb' : Mailbox) : Prop where
  incoming : mb'.incoming ⊆ mb.incoming
  queue : ∀ comm, (mb'.queue comm).isSome = (mb.queue comm).isSome

theorem searched_setQueue {l : List Arrival} {comm : Nat} (h : mb.queue comm = some l)
    (l' : List Arrival) : mb.Searched (mb.setQueue comm l') where
  incoming := List.Subset.refl _
  queue comm' := by
    by_cases hc : comm' = comm
    · subst hc
      rw [setQueue_self, h]
      rfl
    · rw [setQueue_ne _ _ hc]

theorem Searched.trans {mb'' : Mailbox} (h : mb.Searched mb') (h' : mb'.Searched mb'') :
    mb.Searched mb'' where
  incoming := List.Subset.trans h'.incoming h.incoming
  queue comm := (h'.queue comm).trans (h.queue comm)

/-- The loop over the arrived messages searches the mailbox. -/
theorem searched_probeIncoming {incoming : List Arrival} {queue : Nat → Option (List Arrival)}
    (h : (∃ a, probeIncoming pat blocking queue incoming = .found a mb') ∨
      probeIncoming pat blocking queue incoming = .pending mb') :
    Searched ⟨incoming, queue⟩ mb' := by
  induction incoming generalizing queue with
  | nil =>
      rcases h with ⟨a, h⟩ | h
      · cases h
      · cases h
        exact ⟨List.Subset.refl _, fun _ => rfl⟩
  | cons b rest ih =>
      have hcons : Searched ⟨b :: rest, queue⟩ ⟨rest, queue⟩ :=
        ⟨List.subset_cons_self b rest, fun _ => rfl⟩
      unfold probeIncoming at h
      split at h
      · rcases h with ⟨a, h⟩ | h
        · cases h
          exact hcons
        · cases h
      · cases hstore : storeMessage ⟨rest, queue⟩ b with
        | none => simp [hstore] at h
        | some stored =>
            have hincoming := incoming_storeMessage hstore
            obtain ⟨l, hl, hstored⟩ := Option.map_eq_some_iff.mp hstore
            have hsearched : Searched ⟨b :: rest, queue⟩ stored := by
              refine hcons.trans ?_
              rw [← hstored]
              exact searched_setQueue hl _
            cases blocking with
            | false =>
                rcases h with ⟨a, h⟩ | h
                · simp [hstore] at h
                · simp only [hstore, Bool.false_eq_true, if_false] at h
                  cases h
                  exact hsearched
            | true =>
                simp only [hstore, if_true] at h
                have hrest := ih h
                rw [hincoming] at hrest
                exact hsearched.trans hrest

/-- **A search** that does not end the process leaves the queues in place. -/
theorem searched_poll
    (h : (∃ a, mb.poll pat blocking = .found a mb') ∨ mb.poll pat blocking = .pending mb') :
    mb.Searched mb' := by
  unfold poll at h
  cases hpending : mb.findPendingMessage pat with
  | some r =>
      obtain ⟨l, hl, hr⟩ := Option.bind_eq_some_iff.mp hpending
      obtain ⟨r', _, hr⟩ := Option.map_eq_some_iff.mp hr
      simp only [hpending] at h
      rcases h with ⟨a, h⟩ | h
      · cases h
        rw [← show _ = r.2 from congrArg Prod.snd hr]
        exact searched_setQueue hl _
      · cases h
  | none =>
      simp only [hpending] at h
      exact searched_probeIncoming h

/-- The blocking loop finds a message that is there, if all that have arrived are for
communicators in the table. -/
theorem probeIncoming_finds {incoming : List Arrival} {queue : Nat → Option (List Arrival)}
    (hknown : ∀ b ∈ incoming, (queue b.message.comm).isSome)
    (hmatch : ∃ b ∈ incoming, pat.Matches b = true) :
    ∃ a mb', probeIncoming pat true queue incoming = .found a mb' := by
  induction incoming generalizing queue with
  | nil =>
      obtain ⟨b, hb, _⟩ := hmatch
      cases hb
  | cons b rest ih =>
      rw [probeIncoming]
      by_cases hb : pat.Matches b = true
      · rw [if_pos hb]
        exact ⟨_, _, rfl⟩
      · obtain ⟨l, hl⟩ := Option.isSome_iff_exists.mp (hknown b List.mem_cons_self)
        have hstore : storeMessage ⟨rest, queue⟩ b =
            some ((⟨rest, queue⟩ : Mailbox).setQueue b.message.comm (l ++ [b])) := by
          rw [storeMessage, show (⟨rest, queue⟩ : Mailbox).queue b.message.comm = some l from hl]
          rfl
        have hqueue := (searched_setQueue
          (show (⟨rest, queue⟩ : Mailbox).queue b.message.comm = some l from hl) (l ++ [b])).queue
        obtain ⟨b', hb', hmatch'⟩ := hmatch
        rw [if_neg hb, hstore]
        refine ih ?_ ⟨b', ?_, hmatch'⟩
        · intro b'' hb''
          rw [hqueue]
          exact hknown b'' (List.mem_cons_of_mem b hb'')
        · rcases List.mem_cons.mp hb' with rfl | hb'
          · exact absurd hmatch' hb
          · exact hb'

/-- **A blocking search finds a message that is there.** -/
theorem poll_finds (hknown : ∀ b ∈ mb.incoming, (mb.queue b.message.comm).isSome)
    (hmatch : ∃ b ∈ mb.contents pat.comm, pat.Matches b = true) :
    ∃ a mb', mb.poll pat true = .found a mb' := by
  unfold poll
  cases hpending : mb.findPendingMessage pat with
  | some r => exact ⟨r.1, r.2, rfl⟩
  | none =>
      obtain ⟨b, hb, hmatch⟩ := hmatch
      refine probeIncoming_finds hknown ⟨b, ?_, hmatch⟩
      rcases List.mem_append.mp hb with hb | hb
      · have hno := findPendingMessage_eq_none hpending b hb
        rw [hmatch] at hno
        cases hno
      · exact List.mem_of_mem_filter hb

/-- A search finds only what the mailbox offers. -/
theorem offers_of_poll (h : mb.poll pat blocking = .found a mb') : mb.Offers pat blocking := by
  unfold poll at h
  cases hpending : mb.findPendingMessage pat with
  | some r =>
      left
      obtain ⟨l, hl, hr⟩ := Option.bind_eq_some_iff.mp hpending
      obtain ⟨⟨b, l'⟩, htake, _⟩ := Option.map_eq_some_iff.mp hr
      refine ⟨b, ?_, of_takeFirst htake⟩
      rw [hl]
      exact mem_of_takeFirst htake
  | none =>
      right
      simp only [hpending] at h
      cases blocking with
      | true =>
          have hnone := findPendingMessage_eq_none hpending
          obtain ⟨htake, _⟩ := probeIncoming_found hnone h
          have ha := of_takeFirst htake
          refine ⟨a, ?_, ha⟩
          rcases List.mem_append.mp (mem_of_takeFirst htake) with hmem | hmem
          · rw [hnone a hmem] at ha
            cases ha
          · exact List.mem_of_mem_filter hmem
      | false =>
          cases hincoming : mb.incoming with
          | nil =>
              rw [hincoming] at h
              cases h
          | cons b rest =>
              rw [hincoming, probeIncoming] at h
              by_cases hb : pat.Matches b = true
              · exact ⟨b, by simp, hb⟩
              · rw [if_neg hb] at h
                cases hstore : storeMessage ⟨rest, mb.queue⟩ b <;> simp [hstore] at h

end Mailbox

end EsalsaMpi
