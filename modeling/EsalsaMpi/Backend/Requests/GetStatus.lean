import EsalsaMpi.Backend.Requests.Testing

/-!
# `EMPI_Request_get_status`

The call shares the search and the unpacking with `EMPI_Test`.  It moves a message that is for
somebody else to its queue, which nobody notices: whoever searches later finds the same
(`waits_of_stores`).  But it does more.

* For a local request it translates the status of the library, which has set none if the
  request goes on, nor the source if it is a send.
* For a receive from another cluster it unpacks the message, with the status for this call;
  a later test or wait has none.
* For a receive from any source it does not ask the library, and what it has posted stays.

A run with calls that come before all this is like the run without them
(`undisturbed_of_careful`).
-/

namespace EsalsaMpi

namespace Requests

open MatchQueue Relation

variable {α : Type}

/-- The next message is stored in the queue of its communicator. -/
def Stores (mb mb' : Mailbox) : Prop :=
  ∃ a rest, mb.incoming = a :: rest ∧ Mailbox.storeMessage ⟨rest, mb.queue⟩ a = some mb'

section Searches

variable {mb mb' m m' : Mailbox} {pat : Pattern} {a a' : Arrival} {blocking blocking' : Bool}

/-- What is there stays. -/
theorem Stores.contents (h : Stores mb mb') (comm : Nat) :
    mb'.contents comm = mb.contents comm := by
  obtain ⟨a, rest, hincoming, hstore⟩ := h
  rw [Mailbox.contents_storeMessage hstore comm]
  exact congrArg (fun l => Mailbox.contents ⟨l, mb.queue⟩ comm) hincoming.symm

/-- What a queue has and the message that is stored are in the queue afterwards. -/
theorem Stores.mem_queue (h : Stores mb mb')
    (ha : a ∈ (mb.queue pat.comm).getD [] ∨ a ∈ mb.incoming.take 1)
    (hmatch : pat.Matches a = true) : a ∈ (mb'.queue pat.comm).getD [] := by
  obtain ⟨b, rest, hincoming, hstore⟩ := h
  obtain ⟨l, hl, hmb'⟩ := Option.map_eq_some_iff.mp hstore
  have hl' : mb.queue b.message.comm = some l := hl
  rw [hincoming] at ha
  by_cases hcomm : pat.comm = b.message.comm
  · rw [← hmb', hcomm, Mailbox.setQueue_self, Option.getD_some, List.mem_append]
    rw [hcomm, hl', Option.getD_some] at ha
    exact ha.imp_right fun hfirst => by simpa using hfirst
  · rw [← hmb', Mailbox.setQueue_ne _ _ hcomm]
    rcases ha with ha | hfirst
    · exact ha
    · have hsame : a = b := by simpa using hfirst
      exact absurd (hsame ▸ Pattern.comm_of_matches hmatch).symm hcomm

/-- What a mailbox offers it still offers. -/
theorem Stores.offers (h : Stores mb mb') (hoffers : mb.Offers pat false) :
    mb'.Offers pat false := by
  rcases hoffers with ⟨a, ha, hmatch⟩ | ⟨a, ha, hmatch⟩
  · exact Or.inl ⟨a, h.mem_queue (Or.inl ha) hmatch, hmatch⟩
  · exact Or.inl ⟨a, h.mem_queue (Or.inr ha) hmatch, hmatch⟩

/-- Searches in mailboxes with the same contents find the same. -/
theorem found_unique (hcontents : ∀ comm, mb'.contents comm = mb.contents comm)
    (h : mb.poll pat blocking = .found a m) (h' : mb'.poll pat blocking' = .found a' m') :
    a' = a ∧ ∀ comm, m'.contents comm = m.contents comm := by
  obtain ⟨htake, hothers⟩ := Mailbox.poll_found h
  obtain ⟨htake', hothers'⟩ := Mailbox.poll_found h'
  rw [hcontents, htake, Option.some.injEq, Prod.mk.injEq] at htake'
  refine ⟨htake'.1.symm, fun comm => ?_⟩
  by_cases heq : comm = pat.comm
  · rw [heq]
    exact htake'.2.symm
  · rw [hothers comm heq, hothers' comm heq, hcontents comm]

/-- A queue with a match is searched with success. -/
theorem findPendingMessage_of_mem (hmem : a ∈ (mb.queue pat.comm).getD [])
    (hmatch : pat.Matches a = true) : ∃ r, mb.findPendingMessage pat = some r := by
  cases hpending : mb.findPendingMessage pat with
  | some r => exact ⟨r, rfl⟩
  | none =>
      have hno := Mailbox.findPendingMessage_eq_none hpending a hmem
      rw [hmatch] at hno
      cases hno

theorem poll_of_pending {r : Arrival × Mailbox} (h : mb.findPendingMessage pat = some r)
    (blocking : Bool) : mb.poll pat blocking = .found r.1 r.2 := by
  rw [Mailbox.poll, h]

/-- **Storing the next message** makes no difference to a search: either the message that is
found is the same, or the search stores it itself. -/
theorem poll_stores (h : Stores mb mb') (pat : Pattern) :
    (∃ a m m', (∀ blocking, mb.poll pat blocking = .found a m) ∧
        (∀ blocking, mb'.poll pat blocking = .found a m') ∧
          ∀ comm, m'.contents comm = m.contents comm) ∨
      mb.poll pat false = .pending mb' ∧ mb.poll pat true = mb'.poll pat true := by
  have hcontents := h.contents
  have hqueue := @Stores.mem_queue mb mb' pat
  have hstores := h
  obtain ⟨b, rest, hincoming, hstore⟩ := h
  have hsame : ∀ a m, (∀ blocking, mb.poll pat blocking = .found a m) →
      (∃ r, mb'.findPendingMessage pat = some r) →
      ∃ a m m', (∀ blocking, mb.poll pat blocking = .found a m) ∧
        (∀ blocking, mb'.poll pat blocking = .found a m') ∧
          ∀ comm, m'.contents comm = m.contents comm := by
    intro a m hfound ⟨r, hr⟩
    have hfound' := poll_of_pending hr
    obtain ⟨heq, hrest⟩ := found_unique hcontents (hfound true) (hfound' true)
    exact ⟨a, m, r.2, hfound, fun blocking => heq ▸ hfound' blocking, hrest⟩
  cases hpending : mb.findPendingMessage pat with
  | some r =>
      obtain ⟨l', hl', htake⟩ := Option.bind_eq_some_iff.mp hpending
      obtain ⟨⟨a, l''⟩, htake, hr⟩ := Option.map_eq_some_iff.mp htake
      have hmem : a ∈ (mb.queue pat.comm).getD [] := by
        rw [hl']
        exact mem_of_takeFirst htake
      have hmatch := of_takeFirst htake
      exact Or.inl (hsame _ _ (poll_of_pending hpending)
        (findPendingMessage_of_mem (hqueue hstores (Or.inl hmem) hmatch) hmatch))
  | none =>
      have hfirst : b ∈ mb.incoming.take 1 := by
        rw [hincoming]
        exact List.mem_cons_self
      have hpoll : ∀ blocking, mb.poll pat blocking =
          Mailbox.probeIncoming pat blocking mb.queue (b :: rest) := by
        intro blocking
        rw [Mailbox.poll, hpending, hincoming]
      by_cases hmatch : pat.Matches b = true
      · refine Or.inl (hsame b ⟨rest, mb.queue⟩ (fun blocking => ?_)
          (findPendingMessage_of_mem (hqueue hstores (Or.inr hfirst) hmatch) hmatch))
        rw [hpoll, Mailbox.probeIncoming, if_pos hmatch]
      · right
        have hold := Mailbox.findPendingMessage_eq_none hpending
        have hno := Mailbox.storeMessage_noMatch hstore (Bool.eq_false_iff.mpr hmatch) hold
        have hnone : mb'.findPendingMessage pat = none := by
          cases hpending' : mb'.findPendingMessage pat with
          | none => rfl
          | some r =>
              obtain ⟨l', hl', htake⟩ := Option.bind_eq_some_iff.mp hpending'
              obtain ⟨⟨a, l''⟩, htake, _⟩ := Option.map_eq_some_iff.mp htake
              have hfalse := hno a (by rw [hl']; exact mem_of_takeFirst htake)
              rw [of_takeFirst htake] at hfalse
              cases hfalse
        constructor
        · rw [hpoll, Mailbox.probeIncoming, if_neg hmatch, hstore]
          rfl
        · rw [hpoll, Mailbox.probeIncoming, if_neg hmatch, hstore, Mailbox.poll, hnone]
          obtain ⟨l, _, rfl⟩ := Option.map_eq_some_iff.mp hstore
          rfl

end Searches

/-- Calls that end alike, but for what is stored in queues. -/
structure SameEnd (x x' : Probing α) : Prop where
  request : x'.request = x.request
  flag : x'.flag = x.flag
  status : x'.status = x.status
  contents : ∀ comm, x'.mailbox.contents comm = x.mailbox.contents comm

/-- The results of a round with a message that comes next, and with the message stored: they
are alike, or the round stores it, or waits for something else. -/
inductive SameRound (mb mb' : Mailbox) :
    Result (Probing α) → Result (Probing α) → Prop where
  | same (r : Result (Probing α)) : SameRound mb mb' r r
  | ends {x x' : Probing α} (h : SameEnd x x') : SameRound mb mb' (.returned x) (.returned x')
  | stores {y : Probing α} {r : Result (Probing α)} (h : y.mailbox = mb') :
      SameRound mb mb' (.waiting y) r
  | idle {y y' : Probing α} (h : y.mailbox = mb) (h' : y'.mailbox = mb') :
      SameRound mb mb' (.waiting y) (.waiting y')

section Rounds

variable {pk : Packing α} {mpiAnyTag : Int} {p : Posted α} {mb mb' : Mailbox}
  {status : Option Status}

theorem translate_ne_waiting (st : Option Status) :
    translate mpiAnyTag p status ≠ .waiting st := by
  rw [translate.eq_def]
  split
  · nofun
  · split
    · split <;> nofun
    · nofun

/-- Unpacking does not depend on the mailbox. -/
theorem sameRound_finalize {flag : Int} {m m' : Mailbox}
    (hcontents : ∀ comm, m'.contents comm = m.contents comm) :
    SameRound mb mb' (finalize pk ⟨p, m, flag, status⟩) (finalize pk ⟨p, m', flag, status⟩) := by
  rw [finalize, finalize]
  cases messagingFinalizeReceive pk p.toRequest with
  | none => exact .same _
  | some r => exact .ends ⟨rfl, rfl, rfl, hcontents⟩

/-- A status of the library does not depend on the mailbox either. -/
theorem sameRound_translate (hcontents : ∀ comm, mb'.contents comm = mb.contents comm) :
    SameRound mb mb'
      ((translate mpiAnyTag p status).map fun st =>
        ({ request := { p with req := .null }, mailbox := mb, flag := 1, status := st } :
          Probing α))
      ((translate mpiAnyTag p status).map fun st =>
        { request := { p with req := .null }, mailbox := mb', flag := 1, status := st }) := by
  cases htranslate : translate mpiAnyTag p status with
  | returned st => exact .ends ⟨rfl, rfl, rfl, hcontents⟩
  | waiting st => exact absurd htranslate (translate_ne_waiting st)
  | crashed => exact .same _
  | undefined => exact .same _

theorem probeLocal_stores (hcontents : ∀ comm, mb'.contents comm = mb.contents comm) :
    SameRound mb mb' (probeLocal mpiAnyTag true ⟨p, mb, 0, status⟩)
      (probeLocal mpiAnyTag true ⟨p, mb', 0, status⟩) := by
  rw [probeLocal, probeLocal]
  cases p.req with
  | active => exact .idle rfl rfl
  | _ =>
      simp only
      split
      · exact .ends ⟨rfl, rfl, rfl, hcontents⟩
      · exact sameRound_translate hcontents

theorem probeReceive_stores (h : Stores mb mb') :
    SameRound mb mb' (probeReceive pk true ⟨p, mb, 0, status⟩)
      (probeReceive pk true ⟨p, mb', 0, status⟩) := by
  rw [probeReceive, probeReceive]
  simp only [messagingProbeReceive]
  cases hcompleted : p.completed with
  | true =>
      simp only [if_true, hcompleted]
      exact sameRound_finalize h.contents
  | false =>
      simp only [Bool.false_eq_true, if_false]
      rcases poll_stores h p.pattern with ⟨a, m, m', hfound, hfound', hcontents⟩ | ⟨_, hsame⟩
      · simp only [hfound, hfound', if_true]
        exact sameRound_finalize hcontents
      · rw [hsame]
        exact .same _

theorem probeAny_stores (h : Stores mb mb') :
    SameRound mb mb' (probeAny pk mpiAnyTag true ⟨p, mb, 0, status⟩)
      (probeAny pk mpiAnyTag true ⟨p, mb', 0, status⟩) := by
  rw [probeAny, probeAny]
  cases hcompleted : p.completed with
  | true =>
      simp only [if_true]
      exact .ends ⟨rfl, rfl, rfl, h.contents⟩
  | false =>
      simp only [Bool.false_eq_true, if_false]
      cases p.req with
      | active =>
          simp only [messagingProbeReceive, hcompleted, Bool.false_eq_true, if_false]
          rcases poll_stores h p.pattern with ⟨a, m, m', hfound, hfound', hcontents⟩ | ⟨hnone, _⟩
          · simp only [hfound, hfound', if_true]
            exact sameRound_finalize hcontents
          · simp only [hnone, hcompleted, Bool.false_eq_true, if_false, if_true]
            exact .stores rfl
      | _ => exact sameRound_translate h.contents

/-- **A round of `EMPI_Wait`** with a message that comes next, and with the message stored. -/
theorem probe_stores (h : Stores mb mb') :
    SameRound mb mb' (probe pk mpiAnyTag true ⟨p, mb, 0, status⟩)
      (probe pk mpiAnyTag true ⟨p, mb', 0, status⟩) := by
  rw [probe, probe]
  simp only
  split
  · exact probeLocal_stores h.contents
  · split
    · exact .ends ⟨rfl, rfl, rfl, h.contents⟩
    · split
      · exact probeReceive_stores h
      · exact probeAny_stores h

end Rounds

/-- The rounds of the loops of `EMPI_Wait`, from a mailbox to what the last one leaves. -/
inductive Waits (pk : Packing α) (mpiAnyTag : Int) (p : Posted α) (status : Option Status) :
    Mailbox → Probing α → Prop where
  | returned {mb : Mailbox} {x : Probing α}
      (h : probe pk mpiAnyTag true ⟨p, mb, 0, status⟩ = .returned x) :
      Waits pk mpiAnyTag p status mb x
  | again {mb : Mailbox} {x y : Probing α}
      (h : probe pk mpiAnyTag true ⟨p, mb, 0, status⟩ = .waiting y)
      (hagain : Waits pk mpiAnyTag p status y.mailbox x) : Waits pk mpiAnyTag p status mb x

section Waiting

variable {pk : Packing α} {mpiAnyTag : Int} {p : Posted α} {mb mb' : Mailbox}
  {status : Option Status} {x x' : Probing α}

theorem SameEnd.refl (x : Probing α) : SameEnd x x := ⟨rfl, rfl, rfl, fun _ => rfl⟩

theorem SameEnd.symm (h : SameEnd x x') : SameEnd x' x :=
  ⟨h.request.symm, h.flag.symm, h.status.symm, fun comm => (h.contents comm).symm⟩

theorem SameEnd.trans {x'' : Probing α} (h : SameEnd x x') (h' : SameEnd x' x'') :
    SameEnd x x'' :=
  ⟨h'.request.trans h.request, h'.flag.trans h.flag, h'.status.trans h.status,
    fun comm => (h'.contents comm).trans (h.contents comm)⟩

/-- A wait ends as it does with the next message stored. -/
theorem waits_of_stores (hwaits : Waits pk mpiAnyTag p status mb x) (h : Stores mb mb') :
    ∃ x', Waits pk mpiAnyTag p status mb' x' ∧ SameEnd x x' := by
  induction hwaits with
  | @returned mb x hround =>
      have hsame := @probe_stores α pk mpiAnyTag p mb mb' status h
      rw [hround] at hsame
      generalize hround' : probe pk mpiAnyTag true ⟨p, mb', 0, status⟩ = r' at hsame
      cases hsame with
      | same => exact ⟨x, .returned hround', SameEnd.refl x⟩
      | ends hends => exact ⟨_, .returned hround', hends⟩
  | @again mb x y hround hagain ih =>
      have hsame := @probe_stores α pk mpiAnyTag p mb mb' status h
      rw [hround] at hsame
      generalize hround' : probe pk mpiAnyTag true ⟨p, mb', 0, status⟩ = r' at hsame
      cases hsame with
      | same => exact ⟨x, .again hround' hagain, SameEnd.refl x⟩
      | stores hy => exact ⟨x, hy ▸ hagain, SameEnd.refl x⟩
      | idle hy _ => exact ih (hy.symm ▸ h)

/-- A wait ends as it does before the next message is stored. -/
theorem waits_of_stored (hwaits : Waits pk mpiAnyTag p status mb' x') (h : Stores mb mb') :
    ∃ x, Waits pk mpiAnyTag p status mb x ∧ SameEnd x x' := by
  induction hwaits with
  | @returned mb' x' hround =>
      have hwaits := Waits.returned hround
      have hsame := @probe_stores α pk mpiAnyTag p mb mb' status h
      rw [hround] at hsame
      generalize hround' : probe pk mpiAnyTag true ⟨p, mb, 0, status⟩ = r at hsame
      cases hsame with
      | same => exact ⟨x', .returned hround', SameEnd.refl x'⟩
      | ends hends => exact ⟨_, .returned hround', hends⟩
      | stores hy => exact ⟨x', .again hround' (hy ▸ hwaits), SameEnd.refl x'⟩
  | @again mb' x' y' hround hagain ih =>
      have hwaits := Waits.again hround hagain
      have hsame := @probe_stores α pk mpiAnyTag p mb mb' status h
      rw [hround] at hsame
      generalize hround' : probe pk mpiAnyTag true ⟨p, mb, 0, status⟩ = r at hsame
      cases hsame with
      | same => exact ⟨x', .again hround' hagain, SameEnd.refl x'⟩
      | stores hy => exact ⟨x', .again hround' (hy ▸ hwaits), SameEnd.refl x'⟩
      | idle _ hy' => exact ih (hy'.symm ▸ h)

/-- **Waits end alike** however many messages are stored. -/
theorem waits_iff_of_stores (h : ReflTransGen Stores mb mb') :
    (∀ x, Waits pk mpiAnyTag p status mb x →
      ∃ x', Waits pk mpiAnyTag p status mb' x' ∧ SameEnd x x') ∧
      ∀ x', Waits pk mpiAnyTag p status mb' x' →
        ∃ x, Waits pk mpiAnyTag p status mb x ∧ SameEnd x x' := by
  induction h with
  | refl => exact ⟨fun x hx => ⟨x, hx, SameEnd.refl x⟩, fun x hx => ⟨x, hx, SameEnd.refl x⟩⟩
  | @tail m m' _ hstores ih =>
      constructor
      · intro x hx
        obtain ⟨x₁, hx₁, hsame₁⟩ := ih.1 x hx
        obtain ⟨x₂, hx₂, hsame₂⟩ := waits_of_stores hx₁ hstores
        exact ⟨x₂, hx₂, hsame₁.trans hsame₂⟩
      · intro x' hx'
        obtain ⟨x₁, hx₁, hsame₁⟩ := waits_of_stored hx' hstores
        obtain ⟨x₂, hx₂, hsame₂⟩ := ih.2 x₁ hx₁
        exact ⟨x₂, hx₂, hsame₂.trans hsame₁⟩

end Waiting

/-- **When `EMPI_Request_get_status` does no harm**: the status of a local send is ignored;
that of a local receive is too, or the receive has completed and its sender is found; and a
receive for another cluster has not completed. -/
structure GetStatusCondition (p : Posted α) (mb : Mailbox) (status : Option Status) : Prop where
  localSend : p.isLocal = true → p.isSend = true → status = none
  localReceive : p.isLocal = true → p.isSend = false → status = none ∨
    ∃ m, p.req = .received m ∧
      ((p.c.getLocalRank m.sender).bind p.c.getGlobalRank).isSome
  wideReceive : p.isLocal = false → p.isSend = false → ¬ HasCompleted p mb

section Calls

variable {pk : Packing α} {mpiAnyTag : Int} {p : Posted α} {mb mb' : Mailbox} {flag : Int}
  {status : Option Status} {x : Probing α}

/-- A search that finds nothing stores at most the next message. -/
theorem stores_of_pending {pat : Pattern} (h : mb.poll pat false = .pending mb') :
    ReflTransGen Stores mb mb' := by
  rw [Mailbox.poll] at h
  split at h
  · cases h
  · cases hincoming : mb.incoming with
    | nil =>
        rw [hincoming] at h
        cases h
        rw [← hincoming]
    | cons a rest =>
        rw [hincoming, Mailbox.probeIncoming] at h
        split at h
        · cases h
        · cases hstore : Mailbox.storeMessage ⟨rest, mb.queue⟩ a with
          | none => simp [hstore] at h
          | some mb₁ =>
              simp only [hstore, Bool.false_eq_true, if_false] at h
              cases h
              exact .single ⟨a, rest, hincoming, hstore⟩

/-- **A call** under the condition leaves the request as it is. -/
theorem getStatus_keeps (hcondition : GetStatusCondition p mb status)
    (h : getStatus pk mpiAnyTag ⟨p, mb, flag, status⟩ = .returned x) :
    x.request = p ∧ ReflTransGen Stores mb x.mailbox := by
  rw [getStatus] at h
  simp only at h
  split at h
  · obtain ⟨st, rfl⟩ := map_eq_of_ends (Or.inl h)
    exact ⟨rfl, .refl⟩
  · next hlocal =>
    split at h
    · cases h
      exact ⟨rfl, .refl⟩
    · next hsend =>
      have hopen := hcondition.wideReceive (by simpa using hlocal) (by simpa using hsend)
      cases hprobe : messagingProbeReceive p.toRequest false mb with
      | crashed => simp [hprobe] at h
      | waiting mb' => simp [hprobe] at h
      | done r mb' =>
          simp only [hprobe] at h
          rcases messagingProbeReceive_cases hprobe with
            ⟨hcompleted, rfl, rfl⟩ | ⟨_, a, hfound, rfl⟩ | ⟨hcompleted, hpending, rfl⟩
          · exact absurd (.found hcompleted) hopen
          · exact absurd (.offered (by simpa using hlocal) (by simpa using hsend)
              (Mailbox.offers_of_poll hfound)) hopen
          · rw [hcompleted] at h
            cases h
            exact ⟨rfl, stores_of_pending hpending⟩

/-- The status of a message whose sender is found. -/
theorem translate_of_sender {m : LocalSend α} (hm : p.req = .received m)
    (hsender : ((p.c.getLocalRank m.sender).bind p.c.getGlobalRank).isSome)
    (status : Option Status) : ∃ st, translate mpiAnyTag p status = .returned st := by
  cases status with
  | none => exact ⟨none, rfl⟩
  | some old =>
      have hlocal : ∃ st, AnyReceive.localStatus mpiAnyTag p.toRequest m = some st := by
        rw [AnyReceive.localStatus]
        cases hrank : p.c.getLocalRank m.sender with
        | none =>
            rw [hrank] at hsender
            cases hsender
        | some source =>
            rw [hrank, Option.bind_some] at hsender
            obtain ⟨sender, hsender⟩ := Option.isSome_iff_exists.mp hsender
            rw [Option.bind_some, translateStatus, hsender]
            exact ⟨_, rfl⟩
      obtain ⟨st, hst⟩ := hlocal
      exact ⟨some st, by simp only [translate, hm, hst]⟩

/-- **A call** under the condition returns, and says whether the request has completed. -/
theorem getStatus_reports (hlive : Live pk mpiAnyTag p) (hnext : NextKnown mb)
    (hcondition : GetStatusCondition p mb status) :
    ∃ x, getStatus pk mpiAnyTag ⟨p, mb, flag, status⟩ = .returned x ∧
      (x.flag = 1 ∧ HasCompleted p mb ∨ x.flag = 0 ∧ ¬ HasCompleted p mb) := by
  rw [getStatus]
  simp only
  cases hlocal : p.isLocal with
  | true =>
      have hnone : status = none → translate mpiAnyTag p (status.map fun _ => clearStatus) =
          .returned none := by
        rintro rfl
        rfl
      cases hreq : p.req with
      | null => exact absurd hreq (hlive.ofLocal hlocal).2
      | active =>
          have hignored : status = none := by
            cases hsend : p.isSend with
            | true => exact hcondition.localSend hlocal hsend
            | false =>
                rcases hcondition.localReceive hlocal hsend with h | ⟨m, hm, _⟩
                · exact h
                · simp [hreq] at hm
          simp only [hnone hignored, if_true]
          exact ⟨_, rfl, Or.inr ⟨rfl, not_hasCompleted_local hlive hlocal hreq⟩⟩
      | sent =>
          have hsend : p.isSend = true := by
            by_contra hsend
            exact hlive.ofReceive (by simpa using hsend) hreq
          simp only [hnone (hcondition.localSend hlocal hsend), if_true]
          exact ⟨_, rfl, Or.inl ⟨rfl, .library (Or.inl hreq)⟩⟩
      | received m =>
          have hsend : p.isSend = false := by
            by_contra hsend
            exact (hlive.ofSend (by simpa using hsend)).2 m hreq
          obtain ⟨st, htranslate⟩ : ∃ st, translate mpiAnyTag p
              (status.map fun _ => clearStatus) = .returned st := by
            rcases hcondition.localReceive hlocal hsend with h | ⟨m', hm', hsender⟩
            · exact ⟨none, hnone h⟩
            · rw [hreq] at hm'
              cases hm'
              exact translate_of_sender hreq hsender _
          simp only [htranslate, if_true]
          exact ⟨_, rfl, Or.inl ⟨rfl, .library (Or.inr ⟨m, hreq⟩)⟩⟩
  | false =>
      cases hsend : p.isSend with
      | true => exact ⟨_, rfl, Or.inl ⟨rfl, .wideSend hlocal hsend⟩⟩
      | false =>
          have hopen := hcondition.wideReceive hlocal hsend
          have hcompleted : p.completed = false := by
            by_contra hcompleted
            exact hopen (.found (by simpa using hcompleted))
          rcases poll_cases hnext p.pattern with ⟨_, _, _, hoffers⟩ | ⟨mb', hpoll, _⟩
          · exact absurd (.offered hlocal hsend hoffers) hopen
          · simp only [messagingProbeReceive, hcompleted, Bool.false_eq_true, if_false, hpoll]
            exact ⟨_, rfl, Or.inr ⟨rfl, hopen⟩⟩

/-- What a search finds at once it finds if it may wait. -/
theorem poll_true_of_found {pat : Pattern} {a : Arrival} (h : mb.poll pat false = .found a mb') :
    mb.poll pat true = .found a mb' := by
  rw [Mailbox.poll] at h ⊢
  split at h
  · exact h
  · cases hincoming : mb.incoming with
    | nil =>
        rw [hincoming] at h
        cases h
    | cons b rest =>
        rw [hincoming, Mailbox.probeIncoming] at h
        rw [Mailbox.probeIncoming]
        split at h
        · next hmatch =>
          rw [if_pos hmatch]
          exact h
        · cases hstore : Mailbox.storeMessage ⟨rest, mb.queue⟩ b <;> simp [hstore] at h

/-- Unpacking leaves the flag alone. -/
theorem flag_of_finalize {y : Probing α} (h : finalize pk y = .returned x) : x.flag = y.flag := by
  obtain ⟨r, status, _, rfl⟩ := finalize_eq_returned h
  rfl

theorem flag_of_map {r : Result (Option Status)} {f : Option Status → Probing α}
    (hf : ∀ st, (f st).flag = 1) (h : r.map f = .returned x) : x.flag = 1 := by
  obtain ⟨st, rfl⟩ := map_eq_of_ends (Or.inl h)
  exact hf st

/-- **A test** of a request that has completed ends as a wait. -/
theorem probe_blocking (hlive : Live pk mpiAnyTag p) (hnext : NextKnown mb)
    (hdone : HasCompleted p mb)
    (h : probe pk mpiAnyTag false ⟨p, mb, flag, status⟩ = .returned x) :
    probe pk mpiAnyTag true ⟨p, mb, 0, status⟩ = .returned x ∧ x.flag = 1 := by
  rw [probe] at h ⊢
  simp only at h ⊢
  split at h
  · next hlocal =>
    rw [if_pos hlocal]
    rw [probeLocal] at h ⊢
    cases hreq : p.req with
    | active => exact absurd hdone (not_hasCompleted_local hlive hlocal hreq)
    | _ =>
        simp only [hreq] at h ⊢
        split at h
        · next hsend =>
          rw [if_pos hsend]
          cases h
          exact ⟨rfl, rfl⟩
        · next hsend =>
          rw [if_neg hsend]
          exact ⟨h, flag_of_map (fun _ => rfl) h⟩
  · next hlocal =>
    rw [if_neg hlocal]
    split at h
    · next hsend =>
      rw [if_pos hsend]
      cases h
      exact ⟨rfl, rfl⟩
    · next hsend =>
      rw [if_neg hsend]
      have hlocal' : p.isLocal = false := by simpa using hlocal
      have hsend' : p.isSend = false := by simpa using hsend
      split at h
      · next hsource =>
        rw [if_pos hsource]
        rw [probeReceive] at h ⊢
        cases hcompleted : p.completed with
        | true =>
            simp only [messagingProbeReceive, hcompleted, if_true] at h ⊢
            exact ⟨h, flag_of_finalize h⟩
        | false =>
            have hnull := hlive.named hlocal' hsend' hsource
            rcases poll_cases hnext p.pattern with ⟨a, mb', hpoll, _⟩ | ⟨mb', _, hoffers⟩
            · simp only [messagingProbeReceive, hcompleted, Bool.false_eq_true, if_false, hpoll,
                poll_true_of_found hpoll, if_true] at h ⊢
              exact ⟨h, flag_of_finalize h⟩
            · exact absurd hdone
                (not_hasCompleted hsend' hcompleted (Or.inl hnull) hoffers)
      · next hsource =>
        rw [if_neg hsource]
        rw [probeAny] at h ⊢
        cases hcompleted : p.completed with
        | true =>
            simp only [hcompleted, if_true] at h ⊢
            cases h
            exact ⟨rfl, rfl⟩
        | false =>
            simp only [hcompleted, Bool.false_eq_true, if_false] at h ⊢
            cases hreq : p.req with
            | active =>
                rcases poll_cases hnext p.pattern with ⟨a, mb', hpoll, _⟩ | ⟨mb', _, hoffers⟩
                · simp only [hreq, messagingProbeReceive, hcompleted, Bool.false_eq_true, if_false,
                    hpoll, if_true] at h ⊢
                  exact ⟨h, flag_of_finalize h⟩
                · exact absurd hdone
                    (not_hasCompleted hsend' hcompleted (Or.inr hreq) hoffers)
            | _ =>
                simp only [hreq] at h ⊢
                exact ⟨h, flag_of_map (fun _ => rfl) h⟩

end Calls

/-- What happens to a process between its calls, and the calls of
`EMPI_Request_get_status`. -/
inductive Event (α : Type) where
  | arrive (a : Arrival)
  | create (comm : Nat)
  | complete (handle : Nat) (m : Option (LocalSend α))
  | getStatus (flag : Int) (status : Option Status)

/-- An event is no call. -/
def Event.isOutside : Event α → Bool
  | .getStatus _ _ => false
  | _ => true

/-- A message arrives, a communicator is created, or the library completes a send, or a
receive with a message; `none` if it cannot be. -/
def Client.outside (s : Client α) : Event α → Option (Client α)
  | .arrive a => some { s with mailbox := s.mailbox.arrive a }
  | .create comm =>
    match s.mailbox.queue comm with
    | none => some { s with mailbox := s.mailbox.setQueue comm [] }
    | some _ => none
  | .complete handle m =>
    (s.reqs handle).bind fun p =>
      match p.req, p.isSend, m with
      | .active, true, none => some (s.put handle { p with req := .sent })
      | .active, false, some m =>
        some (s.put handle { p with toRequest := p.toRequest.write m, req := .received m })
      | _, _, _ => none
  | .getStatus _ _ => none

/-- What MPI and the senders promise. -/
def Event.Legal (pk : Packing α) (mpiAnyTag : Int) (s : Client α) : Event α → Prop
  | .arrive a => ∃ xs rank, Sent pk a xs rank
  | .complete handle (some m) => ∀ p, s.reqs handle = some p → Accepts mpiAnyTag p m
  | _ => True

/-- A run with calls for the handle `req`, each of them made where `ok` holds of the request,
the mailbox and the status. -/
inductive Runs (pk : Packing α) (mpiAnyTag : Int) (req : Int)
    (ok : Posted α → Mailbox → Option Status → Prop) :
    Client α → List (Event α) → Client α → Prop where
  | nil (s : Client α) : Runs pk mpiAnyTag req ok s [] s
  | outside {s s' s'' : Client α} {e : Event α} {es : List (Event α)}
      (hlegal : e.Legal pk mpiAnyTag s) (hstep : s.outside e = some s')
      (hrest : Runs pk mpiAnyTag req ok s' es s'') :
      Runs pk mpiAnyTag req ok s (e :: es) s''
  | getStatus {s s'' : Client α} {p : Posted α} {flag : Int} {status : Option Status}
      {r : Return α} {es : List (Event α)} (hp : s.handleToRequest req = some p)
      (hok : ok p s.mailbox status)
      (hcall : empiRequestGetStatus pk mpiAnyTag s ⟨req, flag, status⟩ = .returned r)
      (hrest : Runs pk mpiAnyTag req ok r.client es s'') :
      Runs pk mpiAnyTag req ok s (.getStatus flag status :: es) s''

/-- `EMPI_Wait` returns at last. -/
def WaitReturns (pk : Packing α) (mpiAnyTag : Int) (s : Client α) (req : Int)
    (status : Option Status) (r : Return α) : Prop :=
  ∃ p x, s.handleToRequest req = some p ∧ Waits pk mpiAnyTag p status s.mailbox x ∧
    r = finish s ⟨req, 0, status⟩ x

/-- Calls that leave the same behind, but for what is stored in queues. -/
structure SameReturn (r r' : Return α) : Prop where
  arguments : r'.arguments = r.arguments
  request : r'.request = r.request
  reqs : r'.client.reqs = r.client.reqs
  contents : ∀ comm, r'.client.mailbox.contents comm = r.client.mailbox.contents comm

/-- **A request that is not disturbed**: in the states `s`, after calls of
`EMPI_Request_get_status`, and `t`, without them, its requests are the same, and it has
completed in `s` if it has in `t`.  A wait ends in one as in the other, with the same elements,
status and messages left, and so does a test in `s` if the request has completed there. -/
structure Undisturbed (pk : Packing α) (mpiAnyTag : Int) (req : Int) (s t : Client α) :
    Prop where
  reqs : s.reqs = t.reqs
  completed : ∀ p, s.handleToRequest req = some p → HasCompleted p t.mailbox →
    HasCompleted p s.mailbox
  wait : ∀ status r, WaitReturns pk mpiAnyTag s req status r →
    ∃ r', WaitReturns pk mpiAnyTag t req status r' ∧ SameReturn r r'
  unlost : ∀ status r', WaitReturns pk mpiAnyTag t req status r' →
    ∃ r, WaitReturns pk mpiAnyTag s req status r ∧ SameReturn r r'
  test : ∀ p flag status r, s.handleToRequest req = some p → NextKnown s.mailbox →
    HasCompleted p s.mailbox → empiTest pk mpiAnyTag s ⟨req, flag, status⟩ = .returned r →
      ∃ r', WaitReturns pk mpiAnyTag t req status r' ∧ SameReturn r r'

/-- A process with more messages stored. -/
structure Similar (s t : Client α) : Prop where
  reqs : s.reqs = t.reqs
  stores : ReflTransGen Stores t.mailbox s.mailbox

section Runs

variable {pk : Packing α} {mpiAnyTag : Int} {req : Int} {s s' t t' : Client α} {e : Event α}
  {es : List (Event α)} {ok : Posted α → Mailbox → Option Status → Prop}

/-- An event from outside is a step. -/
theorem step_of_outside (hlegal : e.Legal pk mpiAnyTag s) (h : s.outside e = some s') :
    Step pk mpiAnyTag s s' := by
  cases e with
  | arrive a =>
      obtain ⟨xs, rank, hsent⟩ := hlegal
      cases h
      exact .arrive a hsent
  | create comm =>
      simp only [Client.outside] at h
      split at h
      · next hnone =>
        cases h
        exact .create hnone
      · cases h
  | complete handle m =>
      obtain ⟨p, hp, hcompletes⟩ := Option.bind_eq_some_iff.mp h
      split at hcompletes
      · next hreq hsend =>
        cases hcompletes
        exact .sent hp hreq hsend
      · next hreq hsend =>
        cases hcompletes
        exact .received hp hreq hsend (hlegal p hp)
      · cases hcompletes
  | getStatus flag status => cases h

theorem Stores.arrive {mb mb' : Mailbox} (h : Stores mb mb') (a : Arrival) :
    Stores (mb.arrive a) (mb'.arrive a) := by
  obtain ⟨b, rest, hincoming, hstore⟩ := h
  obtain ⟨l, hl, rfl⟩ := Option.map_eq_some_iff.mp hstore
  refine ⟨b, rest ++ [a], ?_, ?_⟩
  · rw [Mailbox.arrive, hincoming]
    rfl
  · rw [Mailbox.storeMessage]
    have hl' : (⟨rest ++ [a], (mb.arrive a).queue⟩ : Mailbox).queue b.message.comm = some l := hl
    rw [hl']
    rfl

/-- A queue that is not there was not there before, and may be created. -/
theorem Stores.create {mb mb' : Mailbox} (h : Stores mb mb') {comm : Nat}
    (hnone : mb'.queue comm = none) :
    mb.queue comm = none ∧ Stores (mb.setQueue comm []) (mb'.setQueue comm []) := by
  obtain ⟨b, rest, hincoming, hstore⟩ := h
  obtain ⟨l, hl, rfl⟩ := Option.map_eq_some_iff.mp hstore
  have hl' : mb.queue b.message.comm = some l := hl
  have hne : comm ≠ b.message.comm := by
    rintro rfl
    rw [Mailbox.setQueue_self] at hnone
    cases hnone
  rw [Mailbox.setQueue_ne _ _ hne] at hnone
  refine ⟨hnone, b, rest, hincoming, ?_⟩
  have hqueue : (⟨rest, (mb.setQueue comm []).queue⟩ : Mailbox).queue b.message.comm = some l :=
    (Mailbox.setQueue_ne mb [] hne.symm).trans hl'
  rw [Mailbox.storeMessage, hqueue]
  refine congrArg some ?_
  simp only [Mailbox.setQueue, Mailbox.mk.injEq, true_and]
  funext comm'
  by_cases hsame : comm' = comm
  · subst hsame
    simp [hne]
  · simp [hsame]

theorem stores_create {mb mb' : Mailbox} (h : ReflTransGen Stores mb mb') {comm : Nat}
    (hnone : mb'.queue comm = none) : mb.queue comm = none ∧
      ReflTransGen Stores (mb.setQueue comm []) (mb'.setQueue comm []) := by
  induction h with
  | refl => exact ⟨hnone, .refl⟩
  | tail _ hstores ih =>
      obtain ⟨hbefore, hcreate⟩ := hstores.create hnone
      obtain ⟨hfirst, hrest⟩ := ih hbefore
      exact ⟨hfirst, hrest.tail hcreate⟩

/-- **Similar processes** stay so. -/
theorem Similar.outside (h : Similar s t) (hstep : s.outside e = some s') :
    ∃ t', t.outside e = some t' ∧ Similar s' t' := by
  obtain ⟨hreqs, hstores⟩ := h
  cases e with
  | arrive a =>
      cases hstep
      exact ⟨_, rfl, hreqs, hstores.lift (fun mb => mb.arrive a) fun _ _ h => h.arrive a⟩
  | create comm =>
      simp only [Client.outside] at hstep
      split at hstep
      · next hnone =>
        cases hstep
        obtain ⟨hnone', hcreate⟩ := stores_create hstores hnone
        refine ⟨{ t with mailbox := t.mailbox.setQueue comm [] }, ?_, hreqs, hcreate⟩
        simp only [Client.outside, hnone']
      · cases hstep
  | complete handle m =>
      have hreqs' : ∀ handle, s.reqs handle = t.reqs handle := congrFun hreqs
      obtain ⟨p, hp, hstep⟩ := Option.bind_eq_some_iff.mp hstep
      have hput : ∀ q : Posted α, Similar (s.put handle q) (t.put handle q) := by
        intro q
        refine ⟨?_, hstores⟩
        rw [Client.put, Client.put, hreqs]
      rw [hreqs'] at hp
      simp only [Client.outside, hp, Option.bind_some]
      split at hstep
      · cases hstep
        exact ⟨_, rfl, hput _⟩
      · cases hstep
        exact ⟨_, rfl, hput _⟩
      · cases hstep
  | getStatus flag status => cases hstep

/-- Calls under the condition, on one side only. -/
theorem similar_of_getStatus (h : Similar s t) {p : Posted α} {flag : Int} {status : Option Status}
    {r : Return α} (hp : s.handleToRequest req = some p)
    (hcondition : GetStatusCondition p s.mailbox status)
    (hcall : empiRequestGetStatus pk mpiAnyTag s ⟨req, flag, status⟩ = .returned r) :
    Similar r.client t := by
  have hnull : req ≠ requestNull :=
    @req_ne_null α s p ⟨req, flag, status⟩ hp
  rw [empiRequestGetStatus, if_neg hnull] at hcall
  simp only [hp] at hcall
  cases hget : getStatus pk mpiAnyTag ⟨p, s.mailbox, flag, status⟩ with
  | returned x =>
      rw [hget] at hcall
      cases hcall
      obtain ⟨hsame, hstores⟩ := getStatus_keeps hcondition hget
      refine ⟨?_, h.stores.trans hstores⟩
      show Function.update s.reqs req.toNat (some x.request) = t.reqs
      rw [hsame, ← handleToRequest_eq_some hp, Function.update_eq_self, h.reqs]
  | waiting x =>
      rw [hget] at hcall
      cases hcall
  | crashed =>
      rw [hget] at hcall
      cases hcall
  | undefined =>
      rw [hget] at hcall
      cases hcall

/-- What is legal for one process is legal for a similar one. -/
theorem Similar.legal (h : Similar s t) (hlegal : e.Legal pk mpiAnyTag s) :
    e.Legal pk mpiAnyTag t := by
  cases e with
  | complete handle m =>
      cases m with
      | none => trivial
      | some m => exact fun p hp => hlegal p (h.reqs ▸ hp)
  | _ => exact hlegal

/-- **A run and the same run without its calls** end in similar processes. -/
theorem similar_of_runs (h : Similar s t)
    (hrun : Runs pk mpiAnyTag req GetStatusCondition s es s') :
    ∃ t', Runs pk mpiAnyTag req (fun _ _ _ => False) t (es.filter Event.isOutside) t' ∧
      Similar s' t' := by
  induction hrun generalizing t with
  | nil s => exact ⟨t, .nil t, h⟩
  | @outside s s₁ s'' e es hlegal hstep _ ih =>
      have houtside : e.isOutside = true := by
        cases e with
        | getStatus flag status => cases hstep
        | _ => rfl
      obtain ⟨t₁, hstep', h₁⟩ := h.outside hstep
      obtain ⟨t', hrun', h'⟩ := ih h₁
      rw [List.filter_cons_of_pos houtside]
      exact ⟨t', .outside (h.legal hlegal) hstep' hrun', h'⟩
  | getStatus hp hok hcall _ ih =>
      rw [List.filter_cons_of_neg (by simp [Event.isOutside])]
      exact ih (similar_of_getStatus h hp hok hcall)

/-- The states of such a run are reachable. -/
theorem reachable_of_runs (h : Reachable pk mpiAnyTag s)
    (hrun : Runs pk mpiAnyTag req ok s es s') : Reachable pk mpiAnyTag s' := by
  induction hrun with
  | nil s => exact h
  | outside hlegal hstep _ ih =>
      obtain ⟨known, hrun⟩ := h
      exact ih ⟨known, hrun.tail (step_of_outside hlegal hstep)⟩
  | getStatus _ _ hcall _ ih =>
      obtain ⟨known, hrun⟩ := h
      exact ih ⟨known, hrun.tail (.getStatus _ hcall)⟩

/-- What has completed with fewer messages stored has completed. -/
theorem hasCompleted_of_stores {p : Posted α} {mb mb' : Mailbox}
    (h : ReflTransGen Stores mb mb') (hdone : HasCompleted p mb) : HasCompleted p mb' := by
  cases hdone with
  | library hreq => exact .library hreq
  | wideSend hlocal hsend => exact .wideSend hlocal hsend
  | found hcompleted => exact .found hcompleted
  | offered hlocal hsend hoffers =>
      refine .offered hlocal hsend ?_
      induction h with
      | refl => exact hoffers
      | tail _ hstores ih => exact hstores.offers ih

/-- What ends alike leaves the same behind. -/
theorem sameReturn_finish (hreqs : s.reqs = t.reqs) {x x' : Probing α} (h : SameEnd x x')
    (args : Arguments) : SameReturn (finish s args x) (finish t args x') := by
  obtain ⟨hrequest, hflag, hstatus, hcontents⟩ := h
  rw [finish, finish, hflag]
  split
  · exact ⟨by simp [hstatus], by simp [hrequest], by simp [hreqs], hcontents⟩
  · exact ⟨by simp [hstatus], by simp [hrequest], by simp [hreqs, hrequest], hcontents⟩

/-- Similar processes have the same requests. -/
theorem Similar.handleToRequest (h : Similar s t) (req : Int) :
    t.handleToRequest req = s.handleToRequest req := by
  rw [Client.handleToRequest, Client.handleToRequest, h.reqs]

/-- A call of `EMPI_Wait` that returns. -/
theorem waitReturns_of_returned {status : Option Status} {r : Return α} (hnull : req ≠ requestNull)
    (h : empiWait pk mpiAnyTag s req status = .returned r) :
    WaitReturns pk mpiAnyTag s req status r := by
  rw [empiWait, probeRequest, if_neg hnull] at h
  cases hp : s.handleToRequest req with
  | none => simp [hp] at h
  | some p =>
      simp only [hp] at h
      cases hprobe : probe pk mpiAnyTag true ⟨p, s.mailbox, 0, status⟩ with
      | returned x =>
          rw [hprobe] at h
          cases h
          exact ⟨p, x, hp, .returned hprobe, rfl⟩
      | waiting x =>
          rw [hprobe] at h
          cases h
      | crashed =>
          rw [hprobe] at h
          cases h
      | undefined =>
          rw [hprobe] at h
          cases h

/-- **A request of similar processes** is not disturbed. -/
theorem undisturbed_of_similar (hreach : Reachable pk mpiAnyTag s) (h : Similar s t) :
    Undisturbed pk mpiAnyTag req s t := by
  have hwaits : ∀ p status, _ := fun p status =>
    @waits_iff_of_stores α pk mpiAnyTag p t.mailbox s.mailbox status h.stores
  have hwait : ∀ status r, WaitReturns pk mpiAnyTag s req status r →
      ∃ r', WaitReturns pk mpiAnyTag t req status r' ∧ SameReturn r r' := by
    rintro status r ⟨p, x, hp, hx, rfl⟩
    obtain ⟨x', hx', hsame⟩ := (hwaits p status).2 x hx
    exact ⟨_, ⟨p, x', (h.handleToRequest req).trans hp, hx', rfl⟩,
      sameReturn_finish h.reqs hsame.symm _⟩
  refine ⟨h.reqs, fun p hp => hasCompleted_of_stores h.stores, hwait, ?_, ?_⟩
  · rintro status r' ⟨p, x, hp, hx, rfl⟩
    obtain ⟨x', hx', hsame⟩ := (hwaits p status).1 x hx
    exact ⟨_, ⟨p, x', (h.handleToRequest req).symm.trans hp, hx', rfl⟩,
      sameReturn_finish h.reqs hsame.symm _⟩
  · intro p flag status r hp hnext hdone htest
    have hlive := (inv_of_reachable hreach).live _ p (handleToRequest_eq_some hp)
    have hnull : req ≠ requestNull := @req_ne_null α s p ⟨req, flag, status⟩ hp
    rw [empiTest, probeRequest, if_neg hnull] at htest
    simp only [hp] at htest
    cases hprobe : probe pk mpiAnyTag false ⟨p, s.mailbox, flag, status⟩ with
    | returned x =>
        rw [hprobe] at htest
        cases htest
        obtain ⟨hround, hflag⟩ := probe_blocking hlive hnext hdone hprobe
        have hfinish : finish s ⟨req, flag, status⟩ x = finish s ⟨req, 0, status⟩ x := by
          rw [finish, finish, if_pos hflag]
        rw [hfinish]
        exact hwait status _ ⟨p, x, hp, .returned hround, rfl⟩
    | waiting x =>
        rw [hprobe] at htest
        cases htest
    | crashed =>
        rw [hprobe] at htest
        cases htest
    | undefined =>
        rw [hprobe] at htest
        cases htest

/-- A call under the condition reports whether the request has completed. -/
theorem reports_of_condition (hreach : Reachable pk mpiAnyTag s) {p : Posted α}
    (hp : s.handleToRequest req = some p) (hnext : NextKnown s.mailbox) {flag : Int}
    {status : Option Status} (hcondition : GetStatusCondition p s.mailbox status) :
    ∃ r, empiRequestGetStatus pk mpiAnyTag s ⟨req, flag, status⟩ = .returned r ∧
      (r.arguments.flag = 1 ∧ HasCompleted p s.mailbox ∨
        r.arguments.flag = 0 ∧ ¬ HasCompleted p s.mailbox) := by
  have hlive := (inv_of_reachable hreach).live _ p (handleToRequest_eq_some hp)
  have hnull : req ≠ requestNull := @req_ne_null α s p ⟨req, flag, status⟩ hp
  obtain ⟨x, hget, hflag⟩ := @getStatus_reports α pk mpiAnyTag p s.mailbox flag status hlive hnext
    hcondition
  rw [empiRequestGetStatus, if_neg hnull]
  simp only [hp, hget]
  exact ⟨_, rfl, hflag⟩

end Runs

/-- **`EMPI_Request_get_status`.**  In every run in which each call meets the condition, from
any state of the requests: the run without the calls is a run too, the request is not
disturbed in the state that is reached, and another call there that meets the condition
reports whether the request has completed. -/
theorem undisturbed_of_careful {pk : Packing α} {mpiAnyTag req : Int} {s s' : Client α}
    {es : List (Event α)} (h : Reachable pk mpiAnyTag s)
    (hrun : Runs pk mpiAnyTag req GetStatusCondition s es s') :
    (∃ t, Runs pk mpiAnyTag req (fun _ _ _ => False) s (es.filter Event.isOutside) t ∧
        Undisturbed pk mpiAnyTag req s' t) ∧
      ∀ p flag status, s'.handleToRequest req = some p → NextKnown s'.mailbox →
        GetStatusCondition p s'.mailbox status →
          ∃ r, empiRequestGetStatus pk mpiAnyTag s' ⟨req, flag, status⟩ = .returned r ∧
            (r.arguments.flag = 1 ∧ HasCompleted p s'.mailbox ∨
              r.arguments.flag = 0 ∧ ¬ HasCompleted p s'.mailbox) := by
  have hreach := reachable_of_runs h hrun
  obtain ⟨t, hrun', hsimilar⟩ := similar_of_runs ⟨rfl, .refl⟩ hrun
  exact ⟨⟨t, hrun', undisturbed_of_similar hreach hsimilar⟩,
    fun p flag status hp hnext hcondition => reports_of_condition hreach hp hnext hcondition⟩

/-- The call comes before the message. -/
theorem undisturbed_waiting :
    ∃ s' t, Runs bytePacking (-2) 0 (fun _ _ _ => False) waiting
        [.arrive AnyReceive.remoteSeven] t ∧
      s'.mailbox.incoming = [AnyReceive.remoteSeven] ∧
        Undisturbed bytePacking (-2) 0 s' t := by
  have hsent : Sent bytePacking AnyReceive.remoteSeven [7] 2 :=
    ⟨setPid 1 0, opcodeData, 0, worldCommunicator [2, 1] 1 0, by decide, by decide⟩
  have hopen : ¬ HasCompleted namedRequest waiting.mailbox := by
    refine not_hasCompleted rfl rfl (Or.inl rfl) ?_
    rintro (⟨a, ha, _⟩ | ⟨a, ha, _⟩) <;> cases ha
  have hrun : ∃ s', Runs bytePacking (-2) 0 GetStatusCondition waiting
      [.getStatus 0 (some clearStatus), .arrive AnyReceive.remoteSeven] s' ∧
        s'.mailbox.incoming = [AnyReceive.remoteSeven] :=
    ⟨_, .getStatus rfl ⟨nofun, nofun, fun _ _ => hopen⟩ rfl
      (.outside ⟨[7], 2, hsent⟩ rfl (.nil _)), rfl⟩
  obtain ⟨s', hrun, hincoming⟩ := hrun
  obtain ⟨⟨t, hrun', hundisturbed⟩, _⟩ := undisturbed_of_careful reachable_waiting hrun
  exact ⟨s', t, hrun', hincoming, hundisturbed⟩

/-- The call comes after the message: the wait has no status. -/
theorem not_undisturbed_arrived :
    ∃ r, empiRequestGetStatus bytePacking (-2) arrived ⟨0, 0, some clearStatus⟩ = .returned r ∧
      (∃ r', empiWait bytePacking (-2) r.client 0 (some clearStatus) = .returned r' ∧
        r'.arguments.status = some clearStatus) ∧
      (∃ r', empiWait bytePacking (-2) arrived 0 (some clearStatus) = .returned r' ∧
        r'.arguments.status = some (setStatus 2 5 empiSuccess 0 1 false)) ∧
      ¬ Undisturbed bytePacking (-2) 0 r.client arrived := by
  refine ⟨_, rfl, ⟨_, rfl, rfl⟩, ⟨_, rfl, rfl⟩, fun h => ?_⟩
  obtain ⟨r', ⟨p, x, hp, hwaits, rfl⟩, hsame⟩ :=
    h.wait (some clearStatus) _ (waitReturns_of_returned (by decide) rfl)
  cases hp
  have hround : ∃ y, probe bytePacking (-2) true
      ⟨namedRequest, arrived.mailbox, 0, some clearStatus⟩ = .returned y ∧ y.flag = 1 ∧
        y.status = some (setStatus 2 5 empiSuccess 0 1 false) := ⟨_, rfl, rfl, rfl⟩
  obtain ⟨y, hround, hflag, hstatus⟩ := hround
  have hx : x = y := by
    cases hwaits with
    | returned hx => exact Result.returned.inj (hx.symm.trans hround)
    | again hx =>
        have hx' := hx.symm.trans hround
        cases hx'
  have harguments := congrArg Arguments.status hsame.arguments
  rw [hx, finish, if_pos hflag] at harguments
  have hsame' : some (setStatus 2 5 empiSuccess 0 1 false) = some clearStatus :=
    hstatus.symm.trans harguments
  revert hsame'
  decide

end Requests

end EsalsaMpi
