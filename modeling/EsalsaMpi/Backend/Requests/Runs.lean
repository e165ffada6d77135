import EsalsaMpi.Backend.Requests.Program
import Mathlib.Logic.Relation

/-!
# The requests of a run

What a process does with its requests, what its library does with them in between, and the
messages that come: `Step`.  In every state of a run each request is in one of the states that
its kind allows (`Live`), and every message has been sent by somebody.
-/

namespace EsalsaMpi

namespace Requests

open Relation

variable {α : Type}

/-- The message was sent with the elements `xs` by rank `rank`, by a send or by a broadcast. -/
def Sent (pk : Packing α) (a : Arrival) (xs : List α) (rank : Nat) : Prop :=
  ∃ pid opcode dest cs, doSend pk pid opcode xs dest a.message.tag cs = some a.message ∧
    cs.globalRank = rank

/-- Everything that has come to a process has been sent by somebody. -/
def AllSent (pk : Packing α) (mb : Mailbox) : Prop :=
  ∀ comm, ∀ a ∈ mb.contents comm, ∃ xs rank, Sent pk a xs rank

/-- A message of the own cluster that the library may deliver to a request. -/
structure Accepts (mpiAnyTag : Int) (p : Posted α) (m : LocalSend α) : Prop where
  legal : AnyReceive.LegalLocal mpiAnyTag p.toRequest m
  tag : acceptsTag p.tag m = true
  source : p.source = empiAnySource ∨ p.source = m.sender

/-- The process has another request at a handle. -/
def Client.put (s : Client α) (handle : Nat) (p : Posted α) : Client α :=
  { s with reqs := Function.update s.reqs handle (some p) }

/-- A message arrives, a communicator is created, the library completes an operation, or a call
returns. -/
inductive Step (pk : Packing α) (mpiAnyTag : Int) : Client α → Client α → Prop
  | arrive {s : Client α} (a : Arrival) {xs : List α} {rank : Nat} (hsent : Sent pk a xs rank) :
      Step pk mpiAnyTag s { s with mailbox := s.mailbox.arrive a }
  | create {s : Client α} {comm : Nat} (hnone : s.mailbox.queue comm = none) :
      Step pk mpiAnyTag s { s with mailbox := s.mailbox.setQueue comm [] }
  | sent {s : Client α} {handle : Nat} {p : Posted α} (hp : s.reqs handle = some p)
      (hreq : p.req = .active) (hsend : p.isSend = true) :
      Step pk mpiAnyTag s (s.put handle { p with req := .sent })
  | received {s : Client α} {handle : Nat} {p : Posted α} {m : LocalSend α}
      (hp : s.reqs handle = some p) (hreq : p.req = .active) (hsend : p.isSend = false)
      (haccepts : Accepts mpiAnyTag p m) :
      Step pk mpiAnyTag s
        (s.put handle { p with toRequest := p.toRequest.write m, req := .received m })
  | isend {s s' : Client α} (isLocal : Bool) (buf : List α) (count : Nat) (type dest tag : Int)
      (c : Communicator)
      (h : s.addRequest (isendRequest isLocal buf count type dest tag c) = some s') :
      Step pk mpiAnyTag s s'
  | irecv {s s' : Client α} (isLocal : Bool) (buf : List α) (count : Nat) (type source tag : Int)
      (c : Communicator)
      (h : empiIrecv s (irecvRequest isLocal buf count type source tag c) = .returned s') :
      Step pk mpiAnyTag s s'
  | test {s : Client α} (args : Arguments) {r : Return α}
      (h : empiTest pk mpiAnyTag s args = .returned r) : Step pk mpiAnyTag s r.client
  | wait {s : Client α} (req : Int) (status : Option Status) {r : Return α}
      (h : empiWait pk mpiAnyTag s req status = .returned r ∨
        empiWait pk mpiAnyTag s req status = .waiting r) : Step pk mpiAnyTag s r.client
  | getStatus {s : Client α} (args : Arguments) {r : Return α}
      (h : empiRequestGetStatus pk mpiAnyTag s args = .returned r) : Step pk mpiAnyTag s r.client

/-- A process without requests and without messages. -/
def Client.start (known : Nat → Bool) : Client α where
  reqs _ := none
  mailbox := ⟨[], fun comm => if known comm then some [] else none⟩

/-- The states of a run. -/
def Reachable (pk : Packing α) (mpiAnyTag : Int) (s : Client α) : Prop :=
  ∃ known, ReflTransGen (Step pk mpiAnyTag) (Client.start known) s

/-- **The states of a request.**  A request for another cluster, other than a receive from any
source, has none of the library; and one from any source completes with a message from
outside only if the message is unpacked. -/
structure Live (pk : Packing α) (mpiAnyTag : Int) (p : Posted α) : Prop where
  ofLocal : p.isLocal = true → p.completed = false ∧ p.req ≠ .null
  ofSend : p.isSend = true → p.completed = false ∧ ∀ m, p.req ≠ .received m
  ofReceive : p.isSend = false → p.req ≠ .sent
  wide : p.isLocal = false → p.isSend = true → p.req = .null
  named : p.isLocal = false → p.isSend = false → p.source ≠ empiAnySource → p.req = .null
  any : p.isLocal = false → p.isSend = false → p.source = empiAnySource →
    p.req ≠ .null ∧ (p.completed = true → p.unpacked = true)
  unpacked : p.unpacked = true → p.completed = true
  message : p.completed = true →
    ∃ a xs rank, p.message = some a ∧ p.pattern.Matches a = true ∧ Sent pk a xs rank
  received : ∀ m, p.req = .received m → Accepts mpiAnyTag p m ∧
    (p.completed = false → p.buf = m.elements ++ p.buf.drop m.elements.length)

/-- What holds in a run. -/
structure Inv (pk : Packing α) (mpiAnyTag : Int) (s : Client α) : Prop where
  live : ∀ handle p, s.reqs handle = some p → Live pk mpiAnyTag p
  mailbox : AllSent pk s.mailbox

section Steps

variable {pk : Packing α} {mpiAnyTag : Int} {s s' : Client α} {p : Posted α} {handle : Nat}
  {mb mb' : Mailbox}

theorem handleToRequest_eq_some {req : Int} (h : s.handleToRequest req = some p) :
    s.reqs req.toNat = some p := by
  rw [Client.handleToRequest] at h
  split at h
  · cases h
  · exact h

/-- A change at one handle. -/
theorem Inv.update (h : Inv pk mpiAnyTag s) {q : Option (Posted α)}
    (hq : ∀ p, q = some p → Live pk mpiAnyTag p)
    (hmb : AllSent pk mb) :
    Inv pk mpiAnyTag ⟨Function.update s.reqs handle q, mb⟩ := by
  refine ⟨fun handle' p hp => ?_, hmb⟩
  by_cases heq : handle' = handle
  · subst heq
    exact hq p (by simpa using hp)
  · simp only [Function.update_of_ne heq] at hp
    exact h.live handle' p hp

theorem Inv.put (h : Inv pk mpiAnyTag s) (hp : Live pk mpiAnyTag p) :
    Inv pk mpiAnyTag (s.put handle p) :=
  h.update (fun _ hq => Option.some.inj hq ▸ hp) h.mailbox

theorem Inv.addRequest (h : Inv pk mpiAnyTag s) (hp : Live pk mpiAnyTag p)
    (hadd : s.addRequest p = some s') : Inv pk mpiAnyTag s' := by
  obtain ⟨i, _, rfl⟩ := Option.map_eq_some_iff.mp hadd
  exact h.put hp

/-- What a search leaves has been sent by somebody. -/
theorem sent_of_poll {pat : Pattern} {blocking : Bool} {a : Arrival}
    (hmb : AllSent pk mb)
    (h : mb.poll pat blocking = .found a mb') :
    (∃ xs rank, Sent pk a xs rank) ∧
      AllSent pk mb' := by
  obtain ⟨htake, hothers⟩ := Mailbox.poll_found h
  refine ⟨hmb _ a (MatchQueue.mem_of_takeFirst htake), fun comm b hb => ?_⟩
  by_cases heq : comm = pat.comm
  · subst heq
    exact hmb _ b (MatchQueue.subset_of_takeFirst htake hb)
  · rw [hothers comm heq] at hb
    exact hmb comm b hb

/-- What `messaging_probe_receive` does. -/
theorem messagingProbeReceive_cases {r r' : Request α} {blocking : Bool}
    (h : messagingProbeReceive r blocking mb = .done r' mb') :
    (r.completed = true ∧ r' = r ∧ mb' = mb) ∨
      (r.completed = false ∧ ∃ a, mb.poll r.pattern blocking = .found a mb' ∧
        r' = { r with completed := true, message := some a }) ∨
      (r.completed = false ∧ mb.poll r.pattern blocking = .pending mb' ∧ r' = r) := by
  rw [messagingProbeReceive] at h
  cases hcompleted : r.completed with
  | true =>
      rw [if_pos hcompleted] at h
      cases h
      exact Or.inl ⟨rfl, rfl, rfl⟩
  | false =>
      rw [if_neg (Bool.eq_false_iff.mp hcompleted)] at h
      cases hpoll : mb.poll r.pattern blocking with
      | found a mb₁ =>
          simp only [hpoll] at h
          cases h
          exact Or.inr (Or.inl ⟨rfl, a, rfl, rfl⟩)
      | pending mb₁ =>
          simp only [hpoll] at h
          cases blocking with
          | false =>
              cases h
              exact Or.inr (Or.inr ⟨rfl, rfl, rfl⟩)
          | true => cases h
      | crashed => simp [hpoll] at h

/-- What `messaging_finalize_receive` does with a request that has completed. -/
theorem messagingFinalizeReceive_cases {r r' : Request α} {status : Option Status}
    (h : messagingFinalizeReceive pk r = some (r', status)) :
    r.completed = true ∧ ((r.unpacked = true ∧ r' = r ∧ status = none) ∨
      (r.unpacked = false ∧ ∃ a result, r.message = some a ∧
        unpackMessage pk r.buf r.count r.type a.message = some result ∧
          r' = { r with buf := result.1, unpacked := true } ∧ status = some result.2)) := by
  rw [messagingFinalizeReceive] at h
  split at h
  · cases h
  · next hcompleted =>
      refine ⟨by simpa using hcompleted, ?_⟩
      split at h
      · next hunpacked =>
          cases h
          exact Or.inl ⟨hunpacked, rfl, rfl⟩
      · next hunpacked =>
          obtain ⟨a, ha, h⟩ := Option.bind_eq_some_iff.mp h
          obtain ⟨result, hresult, h⟩ := Option.map_eq_some_iff.mp h
          cases h
          exact Or.inr ⟨by simpa using hunpacked, a, result, ha, hresult, rfl, rfl⟩

/-- The message of a request that has looked for one. -/
theorem message_of_probe {r : Request α} {blocking : Bool} (h : Live pk mpiAnyTag p)
    (hmb : AllSent pk mb) (hprobe : messagingProbeReceive p.toRequest blocking mb = .done r mb')
    (hcompleted : r.completed = true) :
    ∃ a xs rank, r.message = some a ∧ p.pattern.Matches a = true ∧ Sent pk a xs rank := by
  rcases messagingProbeReceive_cases hprobe with
    ⟨hdone, rfl, rfl⟩ | ⟨_, a, hfound, rfl⟩ | ⟨hopen, _, rfl⟩
  · exact h.message hdone
  · obtain ⟨xs, rank, hsent⟩ := (sent_of_poll hmb hfound).1
    exact ⟨a, xs, rank, rfl, MatchQueue.of_takeFirst (Mailbox.poll_found hfound).1, hsent⟩
  · rw [hcompleted] at hopen
    cases hopen

/-- A search changes what is known of the message only. -/
theorem asks_of_probe {r r' : Request α} {blocking : Bool}
    (h : messagingProbeReceive r blocking mb = .done r' mb') : AnyReceive.Asks r r' := by
  rcases messagingProbeReceive_cases h with ⟨_, rfl, rfl⟩ | ⟨_, a, _, rfl⟩ | ⟨_, _, rfl⟩
  · exact ⟨rfl, rfl, rfl, rfl, rfl⟩
  · exact ⟨rfl, rfl, rfl, rfl, rfl⟩
  · exact ⟨rfl, rfl, rfl, rfl, rfl⟩

/-- A receive for another cluster whose message has come. -/
theorem Live.found {r : Request α} (h : Live pk mpiAnyTag p) (hlocal : p.isLocal = false)
    (hsend : p.isSend = false) (hasks : AnyReceive.Asks p.toRequest r)
    (hcompleted : r.completed = true)
    (hkind : p.source = empiAnySource → r.unpacked = true)
    (hmessage : ∃ a xs rank, r.message = some a ∧ p.pattern.Matches a = true ∧
      Sent pk a xs rank) : Live pk mpiAnyTag { p with toRequest := r } := by
  obtain ⟨a, xs, rank, ha, hmatch, hsent⟩ := hmessage
  refine ⟨fun hl => ?_, fun hs => ?_, h.ofReceive, fun _ hs => ?_, fun _ _ hsource => ?_,
    fun _ _ hsource => ?_, fun _ => hcompleted, fun _ => ⟨a, xs, rank, ha, ?_, hsent⟩,
    fun m hm => ⟨?_, fun hopen => ?_⟩⟩
  · rw [hlocal] at hl
    cases hl
  · rw [hsend] at hs
    cases hs
  · rw [hsend] at hs
    cases hs
  · exact h.named hlocal hsend (hasks.source ▸ hsource)
  · have hany : p.source = empiAnySource := hasks.source ▸ hsource
    exact ⟨(h.any hlocal hsend hany).1, fun _ => hkind hany⟩
  · show r.pattern.Matches a = true
    rw [hasks.pattern]
    exact hmatch
  · obtain ⟨⟨hsender, hcluster, htag, hroom⟩, haccepts, hsource⟩ := (h.received m hm).1
    exact ⟨⟨hasks.c ▸ hsender, hasks.c ▸ hcluster, htag, hasks.tag ▸ hasks.count ▸ hroom⟩,
      hasks.tag ▸ haccepts, hasks.source ▸ hsource⟩
  · rw [hcompleted] at hopen
    cases hopen

theorem asks_trans {r r' r'' : Request α} (h : AnyReceive.Asks r r')
    (h' : AnyReceive.Asks r' r'') : AnyReceive.Asks r r'' :=
  ⟨h'.count.trans h.count, h'.type.trans h.type, h'.source.trans h.source, h'.tag.trans h.tag,
    h'.c.trans h.c⟩

/-- A request that is finalized is unpacked. -/
theorem unpacked_of_finalize {r r' : Request α} {status : Option Status}
    (h : messagingFinalizeReceive pk r = some (r', status)) :
    AnyReceive.Asks r r' ∧ r'.completed = true ∧ r'.unpacked = true ∧ r'.message = r.message := by
  obtain ⟨hcompleted, ⟨hunpacked, rfl, _⟩ | ⟨_, a, result, _, _, rfl, _⟩⟩ :=
    messagingFinalizeReceive_cases h
  · exact ⟨⟨rfl, rfl, rfl, rfl, rfl⟩, hcompleted, hunpacked, rfl⟩
  · exact ⟨⟨rfl, rfl, rfl, rfl, rfl⟩, hcompleted, rfl, rfl⟩

/-- What `finalize` returns. -/
theorem finalize_eq_returned {x x' : Probing α} (h : finalize pk x = .returned x') :
    ∃ r status, messagingFinalizeReceive pk x.request.toRequest = some (r, status) ∧
      x' = { x with
        request := { x.request with toRequest := r }
        status := x.status.map fun old => status.getD old } := by
  rw [finalize] at h
  cases hfinal : messagingFinalizeReceive pk x.request.toRequest with
  | none => simp [hfinal] at h
  | some result =>
      simp only [hfinal] at h
      cases h
      exact ⟨result.1, result.2, rfl, rfl⟩

theorem finalize_ne_waiting {x x' : Probing α} : finalize pk x ≠ .waiting x' := by
  rw [finalize]
  split <;> nofun

/-- A result that is translated. -/
theorem map_eq_of_ends {β γ : Type} {f : β → γ} {r : Result β} {c : γ}
    (h : r.map f = .returned c ∨ r.map f = .waiting c) : ∃ b, c = f b := by
  cases r with
  | returned b => rcases h with h | h <;> cases h; exact ⟨b, rfl⟩
  | waiting b => rcases h with h | h <;> cases h; exact ⟨b, rfl⟩
  | crashed => rcases h with h | h <;> cases h
  | undefined => rcases h with h | h <;> cases h

/-- A call that finds no message outside leaves the request as it is. -/
theorem probed_cases {r : Request α} {blocking : Bool} (hmb : AllSent pk mb)
    (hprobe : messagingProbeReceive p.toRequest blocking mb = .done r mb') :
    AllSent pk mb' ∧ (r.completed = true ∨ r = p.toRequest) := by
  rcases messagingProbeReceive_cases hprobe with
    ⟨hcompleted, rfl, rfl⟩ | ⟨_, a, hfound, rfl⟩ | ⟨_, hpending, rfl⟩
  · exact ⟨hmb, Or.inl hcompleted⟩
  · exact ⟨(sent_of_poll hmb hfound).2, Or.inl rfl⟩
  · exact ⟨fun comm a ha => hmb comm a (Mailbox.poll_pending hpending comm ▸ ha), Or.inr rfl⟩

/-- A blocking search that waits leaves what there is. -/
theorem allSent_of_waiting {r : Request α} {blocking : Bool} (hmb : AllSent pk mb)
    (hprobe : messagingProbeReceive r blocking mb = .waiting mb') : AllSent pk mb' := by
  rw [messagingProbeReceive] at hprobe
  split at hprobe
  · cases hprobe
  · cases hpoll : mb.poll r.pattern blocking with
    | found a mb₁ => simp [hpoll] at hprobe
    | crashed => simp [hpoll] at hprobe
    | pending mb₁ =>
        cases blocking with
        | false => simp [hpoll] at hprobe
        | true =>
            simp only [hpoll, if_true] at hprobe
            cases hprobe
            exact fun comm a ha => hmb comm a (Mailbox.poll_pending hpoll comm ▸ ha)

section Branches

variable {x x' : Probing α} {blocking : Bool}

/-- The call sets the flag or leaves the request as it is, and loses no message. -/
def Keeps (pk : Packing α) (x x' : Probing α) : Prop :=
  (x'.flag = 1 ∨ x'.request = x.request) ∧ AllSent pk x'.mailbox

theorem probeLocal_keeps (hmb : AllSent pk x.mailbox)
    (hends : probeLocal mpiAnyTag blocking x = .returned x' ∨
      probeLocal mpiAnyTag blocking x = .waiting x') : Keeps pk x x' := by
  rw [probeLocal] at hends
  split at hends
  · cases blocking <;> rcases hends with h | h <;> cases h <;> exact ⟨Or.inr rfl, hmb⟩
  · split at hends
    · rcases hends with h | h <;> cases h
      exact ⟨Or.inl rfl, hmb⟩
    · obtain ⟨status, rfl⟩ := map_eq_of_ends hends
      exact ⟨Or.inl rfl, hmb⟩

theorem probeReceive_keeps (hmb : AllSent pk x.mailbox)
    (hends : probeReceive pk blocking x = .returned x' ∨
      probeReceive pk blocking x = .waiting x') : Keeps pk x x' := by
  rw [probeReceive] at hends
  cases hprobe : messagingProbeReceive x.request.toRequest blocking x.mailbox with
  | crashed => simp [hprobe] at hends
  | waiting mb =>
      simp only [hprobe] at hends
      rcases hends with h | h <;> cases h
      exact ⟨Or.inr rfl, allSent_of_waiting hmb hprobe⟩
  | done r mb =>
      simp only [hprobe] at hends
      obtain ⟨hmb', hr⟩ := probed_cases hmb hprobe
      split at hends
      · obtain ⟨r', status, _, rfl⟩ :=
          finalize_eq_returned (hends.resolve_right finalize_ne_waiting)
        exact ⟨Or.inl rfl, hmb'⟩
      · next hcompleted =>
        rcases hends with h | h <;> cases h
        obtain rfl := hr.resolve_left hcompleted
        exact ⟨Or.inr rfl, hmb'⟩

theorem probeAny_keeps (hmb : AllSent pk x.mailbox)
    (hends : probeAny pk mpiAnyTag blocking x = .returned x' ∨
      probeAny pk mpiAnyTag blocking x = .waiting x') : Keeps pk x x' := by
  rw [probeAny] at hends
  split at hends
  · rcases hends with h | h <;> cases h
    exact ⟨Or.inl rfl, hmb⟩
  · split at hends
    · cases hprobe : messagingProbeReceive x.request.toRequest false x.mailbox with
      | crashed => simp [hprobe] at hends
      | waiting mb => simp [hprobe] at hends
      | done r mb =>
          simp only [hprobe] at hends
          obtain ⟨hmb', hr⟩ := probed_cases hmb hprobe
          split at hends
          · obtain ⟨r', status, _, rfl⟩ :=
              finalize_eq_returned (hends.resolve_right finalize_ne_waiting)
            exact ⟨Or.inl rfl, hmb'⟩
          · next hcompleted =>
            obtain rfl := hr.resolve_left hcompleted
            cases blocking <;> rcases hends with h | h <;> cases h <;> exact ⟨Or.inr rfl, hmb'⟩
    · obtain ⟨status, rfl⟩ := map_eq_of_ends hends
      exact ⟨Or.inl rfl, hmb⟩

/-- **The branches of `probe_request`**. -/
theorem probe_keeps (hmb : AllSent pk x.mailbox)
    (hends : probe pk mpiAnyTag blocking x = .returned x' ∨
      probe pk mpiAnyTag blocking x = .waiting x') : Keeps pk x x' := by
  rw [probe] at hends
  split at hends
  · exact probeLocal_keeps hmb hends
  · split at hends
    · rcases hends with h | h <;> cases h
      exact ⟨Or.inl rfl, hmb⟩
    · split at hends
      · exact probeReceive_keeps hmb hends
      · exact probeAny_keeps hmb hends

/-- **`EMPI_Request_get_status`** leaves a request in one of its states. -/
theorem Live.getStatus (h : Live pk mpiAnyTag x.request) (hmb : AllSent pk x.mailbox)
    (hends : getStatus pk mpiAnyTag x = .returned x') :
    Live pk mpiAnyTag x'.request ∧ AllSent pk x'.mailbox := by
  rw [Requests.getStatus] at hends
  split at hends
  · obtain ⟨status, rfl⟩ := map_eq_of_ends (Or.inl hends)
    exact ⟨h, hmb⟩
  · next hlocal =>
    split at hends
    · cases hends
      exact ⟨h, hmb⟩
    · next hsend =>
      cases hprobe : messagingProbeReceive x.request.toRequest false x.mailbox with
      | crashed => simp [hprobe] at hends
      | waiting mb => simp [hprobe] at hends
      | done r mb =>
          simp only [hprobe] at hends
          obtain ⟨hmb', hr⟩ := probed_cases hmb hprobe
          split at hends
          · next hcompleted =>
            obtain ⟨r', status, hfinal, rfl⟩ := finalize_eq_returned hends
            obtain ⟨hasks', hcompleted', hunpacked', hmessage'⟩ := unpacked_of_finalize hfinal
            have hmessage := message_of_probe h hmb hprobe hcompleted
            have hasks := asks_trans (asks_of_probe hprobe) hasks'
            refine ⟨h.found (by simpa using hlocal) (by simpa using hsend) hasks hcompleted'
              (fun _ => hunpacked') ?_, hmb'⟩
            rwa [hmessage']
          · next hcompleted =>
            cases hends
            obtain rfl := hr.resolve_left hcompleted
            exact ⟨h, hmb'⟩

end Branches

/-- What `probe_request` leaves. -/
theorem inv_probeRequest (h : Inv pk mpiAnyTag s) {args : Arguments} {blocking : Bool}
    {r : Return α} (hends : probeRequest pk mpiAnyTag blocking s args = .returned r ∨
      probeRequest pk mpiAnyTag blocking s args = .waiting r) : Inv pk mpiAnyTag r.client := by
  rw [probeRequest] at hends
  split at hends
  · rcases hends with h' | h' <;> cases h'
    exact h
  · cases hp : s.handleToRequest args.req with
    | none => simp [hp] at hends
    | some p =>
        simp only [hp] at hends
        have hlive := h.live _ p (handleToRequest_eq_some hp)
        have hkeeps : ∀ x, (probe pk mpiAnyTag blocking ⟨p, s.mailbox, args.flag, args.status⟩ =
            .returned x ∨ probe pk mpiAnyTag blocking ⟨p, s.mailbox, args.flag, args.status⟩ =
              .waiting x) → Inv pk mpiAnyTag (finish s args x).client := by
          intro x hx
          obtain ⟨hflag, hmb⟩ := probe_keeps h.mailbox hx
          rw [finish]
          split
          · exact h.update (fun _ hq => nomatch hq) hmb
          · next hne =>
            have hsame := hflag.resolve_left hne
            exact h.update (fun q hq => Option.some.inj hq ▸ hsame ▸ hlive) hmb
        cases hprobe : probe pk mpiAnyTag blocking ⟨p, s.mailbox, args.flag, args.status⟩ with
        | returned x =>
            rw [hprobe] at hends
            rcases hends with h' | h' <;> cases h'
            exact hkeeps x (Or.inl hprobe)
        | waiting x =>
            rw [hprobe] at hends
            rcases hends with h' | h' <;> cases h'
            exact hkeeps x (Or.inr hprobe)
        | crashed =>
            rw [hprobe] at hends
            rcases hends with h' | h' <;> cases h'
        | undefined =>
            rw [hprobe] at hends
            rcases hends with h' | h' <;> cases h'

theorem inv_getStatus (h : Inv pk mpiAnyTag s) {args : Arguments} {r : Return α}
    (hends : empiRequestGetStatus pk mpiAnyTag s args = .returned r) :
    Inv pk mpiAnyTag r.client := by
  rw [empiRequestGetStatus] at hends
  split at hends
  · cases hends
    exact h
  · cases hp : s.handleToRequest args.req with
    | none => simp [hp] at hends
    | some p =>
        simp only [hp] at hends
        have hlive := h.live _ p (handleToRequest_eq_some hp)
        cases hget : getStatus pk mpiAnyTag ⟨p, s.mailbox, args.flag, args.status⟩ with
        | returned x =>
            rw [hget] at hends
            cases hends
            obtain ⟨hlive', hmb⟩ := Live.getStatus hlive h.mailbox hget
            exact h.update (fun q hq => Option.some.inj hq ▸ hlive') hmb
        | waiting x =>
            rw [hget] at hends
            cases hends
        | crashed =>
            rw [hget] at hends
            cases hends
        | undefined =>
            rw [hget] at hends
            cases hends

/-- A new request. -/
theorem live_isendRequest (isLocal : Bool) (buf : List α) (count : Nat) (type dest tag : Int)
    (c : Communicator) :
    Live pk mpiAnyTag (isendRequest isLocal buf count type dest tag c) := by
  cases isLocal with
  | true => exact ⟨fun _ => ⟨rfl, nofun⟩, fun _ => ⟨rfl, nofun⟩, nofun, nofun, nofun, nofun, nofun,
      nofun, nofun⟩
  | false => exact ⟨nofun, fun _ => ⟨rfl, nofun⟩, nofun, fun _ _ => rfl, nofun, nofun, nofun, nofun,
      nofun⟩

theorem live_irecvRequest (isLocal : Bool) (buf : List α) (count : Nat) (type source tag : Int)
    (c : Communicator) :
    Live pk mpiAnyTag (irecvRequest isLocal buf count type source tag c) := by
  have hreq : ∀ req : LibraryRequest α, req = (if isLocal ∨ source = empiAnySource then .active
      else .null) → req ≠ .sent ∧ ∀ m, req ≠ .received m := by
    intro req hreq
    split at hreq <;> subst hreq <;> exact ⟨nofun, nofun⟩
  refine ⟨fun hlocal => ⟨rfl, ?_⟩, nofun, fun _ => (hreq _ rfl).1, nofun, fun hlocal _ hsource => ?_,
    fun _ _ hsource => ⟨?_, nofun⟩, nofun, nofun, fun m hm => absurd hm ((hreq _ rfl).2 m)⟩
  · have hcond : isLocal = true ∨ source = empiAnySource := Or.inl hlocal
    simp [irecvRequest, hcond]
  · have hcond : ¬ (isLocal = true ∨ source = empiAnySource) := by
      rintro (htrue | hany)
      · have hfalse : isLocal = false := hlocal
        rw [htrue] at hfalse
        cases hfalse
      · exact hsource hany
    simp [irecvRequest, hcond]
  · have hcond : isLocal = true ∨ source = empiAnySource := Or.inr hsource
    simp [irecvRequest, hcond]

theorem inv_irecv (h : Inv pk mpiAnyTag s) (hlive : Live pk mpiAnyTag p) (hsend : p.isSend = false)
    (hends : empiIrecv s p = .returned s') : Inv pk mpiAnyTag s' := by
  rw [empiIrecv] at hends
  split at hends
  · cases hadd : s.addRequest p with
    | none => simp [hadd] at hends
    | some s₁ =>
        simp only [hadd] at hends
        cases hends
        exact h.addRequest hlive hadd
  · next hkind =>
    obtain ⟨hlocal, hsource⟩ := not_or.mp hkind
    cases hprobe : messagingProbeReceive p.toRequest false s.mailbox with
    | crashed => simp [hprobe] at hends
    | waiting mb => simp [hprobe] at hends
    | done r mb =>
        simp only [hprobe] at hends
        obtain ⟨hmb', hr⟩ := probed_cases h.mailbox hprobe
        have hlive' : Live pk mpiAnyTag { p with toRequest := r } := by
          by_cases hcompleted : r.completed = true
          · exact hlive.found (by simpa using hlocal) hsend (asks_of_probe hprobe) hcompleted
              (fun hany => absurd hany hsource) (message_of_probe hlive h.mailbox hprobe hcompleted)
          · obtain rfl := hr.resolve_left hcompleted
            exact hlive
        have hinv : Inv pk mpiAnyTag { s with mailbox := mb } := ⟨h.live, hmb'⟩
        cases hadd : ({ s with mailbox := mb } : Client α).addRequest { p with toRequest := r } with
        | none => simp [hadd] at hends
        | some s₁ =>
            simp only [hadd] at hends
            cases hends
            exact hinv.addRequest hlive' hadd

/-- The library completes a receive. -/
theorem Live.receives {m : LocalSend α} (h : Live pk mpiAnyTag p) (hreq : p.req = .active)
    (hsend : p.isSend = false) (haccepts : Accepts mpiAnyTag p m) :
    Live pk mpiAnyTag { p with toRequest := p.toRequest.write m, req := .received m } := by
  refine ⟨fun hlocal => ⟨(h.ofLocal hlocal).1, nofun⟩, fun hs => ?_, fun _ => nofun, fun _ hs => ?_,
    fun hlocal _ hsource => ?_, fun hlocal _ hsource => ⟨nofun, (h.any hlocal hsend hsource).2⟩,
    h.unpacked, h.message, fun m' hm' => ?_⟩
  · rw [hsend] at hs
    cases hs
  · rw [hsend] at hs
    cases hs
  · have hnull := h.named hlocal hsend hsource
    rw [hreq] at hnull
    cases hnull
  · cases hm'
    obtain ⟨⟨hsender, hcluster, htag, hroom⟩, haccepts, hsource⟩ := haccepts
    refine ⟨⟨⟨hsender, hcluster, htag, hroom⟩, haccepts, hsource⟩, fun _ => ?_⟩
    show m.elements ++ p.buf.drop m.elements.length =
      m.elements ++ (m.elements ++ p.buf.drop m.elements.length).drop m.elements.length
    rw [List.drop_left]

/-- The library completes a send. -/
theorem Live.sends (h : Live pk mpiAnyTag p) (hreq : p.req = .active) (hsend : p.isSend = true) :
    Live pk mpiAnyTag { p with req := .sent } := by
  have hother : ∀ {P : Prop}, p.isSend = false → P := by
    intro P hs
    rw [hsend] at hs
    cases hs
  refine ⟨fun hlocal => ⟨(h.ofLocal hlocal).1, nofun⟩, fun _ => ⟨(h.ofSend hsend).1, nofun⟩,
    fun hs => hother hs, fun hlocal _ => ?_, fun _ hs => hother hs, fun _ hs => hother hs,
    h.unpacked, h.message, nofun⟩
  have hnull := h.wide hlocal hsend
  rw [hreq] at hnull
  cases hnull

/-- A message that arrives, and a queue that is created. -/
theorem inv_arrive (h : Inv pk mpiAnyTag s) {a : Arrival} {xs : List α} {rank : Nat}
    (hsent : Sent pk a xs rank) :
    Inv pk mpiAnyTag { s with mailbox := s.mailbox.arrive a } := by
  refine ⟨h.live, fun comm b hb => ?_⟩
  rw [Mailbox.contents_arrive] at hb
  rcases List.mem_append.mp hb with hb | hb
  · exact h.mailbox comm b hb
  · split at hb
    · rw [List.mem_singleton.mp hb]
      exact ⟨xs, rank, hsent⟩
    · cases hb

theorem inv_create (h : Inv pk mpiAnyTag s) {comm : Nat} (hnone : s.mailbox.queue comm = none) :
    Inv pk mpiAnyTag { s with mailbox := s.mailbox.setQueue comm [] } := by
  refine ⟨h.live, fun comm' b hb => h.mailbox comm' b ?_⟩
  rw [Mailbox.contents] at hb ⊢
  by_cases heq : comm' = comm
  · subst heq
    rw [hnone]
    simpa using hb
  · simpa [Mailbox.setQueue_ne _ _ heq] using hb

/-- **A step** leaves every request in one of its states. -/
theorem inv_step (h : Inv pk mpiAnyTag s) (hstep : Step pk mpiAnyTag s s') :
    Inv pk mpiAnyTag s' := by
  cases hstep with
  | arrive a hsent => exact inv_arrive h hsent
  | create hnone => exact inv_create h hnone
  | sent hp hreq hsend => exact h.put ((h.live _ _ hp).sends hreq hsend)
  | received hp hreq hsend haccepts => exact h.put ((h.live _ _ hp).receives hreq hsend haccepts)
  | isend isLocal buf count type dest tag c hadd =>
      exact h.addRequest (live_isendRequest isLocal buf count type dest tag c) hadd
  | irecv isLocal buf count type source tag c hends =>
      exact inv_irecv h (live_irecvRequest isLocal buf count type source tag c) rfl hends
  | test args hends => exact inv_probeRequest h (Or.inl hends)
  | wait req status hends => exact inv_probeRequest h hends
  | getStatus args hends => exact inv_getStatus h hends

theorem inv_start (known : Nat → Bool) : Inv pk mpiAnyTag (Client.start known) where
  live handle p hp := by cases hp
  mailbox comm a ha := by
    simp only [Client.start, Mailbox.contents] at ha
    split at ha <;> cases ha

/-- **The states of the requests in a run.** -/
theorem inv_of_reachable (h : Reachable pk mpiAnyTag s) : Inv pk mpiAnyTag s := by
  obtain ⟨known, hrun⟩ := h
  induction hrun with
  | refl => exact inv_start known
  | tail _ hstep ih => exact inv_step ih hstep

end Steps

end Requests

end EsalsaMpi
