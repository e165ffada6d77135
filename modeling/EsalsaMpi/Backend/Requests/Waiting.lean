import EsalsaMpi.Backend.Requests.GetStatus
import EsalsaMpi.Library.Polling

/-!
# `EMPI_Waitall` and `EMPI_Waitany`

Both calls test the requests of an array in turn, again and again: `EMPI_Waitall` until all are
`EMPI_REQUEST_NULL`, `EMPI_Waitany` until one has completed.  Between two tests a message may
arrive, and the library of the cluster may complete an operation (`Meanwhile`).

The tests are made with a flag of 0, and nobody has asked for the status of a request before.  So
if the messages are as long as there is room for, a test delivers what is due and takes the
request out of the array, or leaves all as it is but for the next message from MPI, which it may
store in its queue (`Awaited.test`).

`EMPI_Waitall` goes through the statuses without a look at `EMPI_STATUSES_IGNORE`, which is a null
pointer: the first status is then ignored, and the others are written behind address 0.  So there
has to be one for each request.
-/

namespace EsalsaMpi

namespace Requests

open Relation MatchQueue

variable {α : Type}

/-- `EMPI_Waitall` in its inner loop, which has ended if `i` is the number of requests.  There are
no statuses if they are `EMPI_STATUSES_IGNORE`.  In `freed` are the requests as they were freed, with the buffers of the caller. -/
structure Waitall (α : Type) where
  client : Client α
  array : List Int
  statuses : List Status
  freed : Nat → Option (Posted α)
  done : Nat
  i : Nat

/-- `EMPI_Waitall` before its outer loop. -/
def Waitall.start (s : Client α) (array : List Int) (statuses : List Status) : Waitall α where
  client := s
  array := array
  statuses := statuses
  freed _ := none
  done := array.countP fun req => req = requestNull
  i := array.length

/-- What a test does to the variables of `EMPI_Waitall`. -/
def Waitall.tested (l : Waitall α) (r : Return α) : Waitall α where
  client := r.client
  array := l.array.set l.i (if r.arguments.flag = 1 then requestNull else r.arguments.req)
  statuses := r.arguments.status.elim l.statuses (l.statuses.set l.i)
  freed := if r.arguments.flag = 1 then Function.update l.freed l.i r.request else l.freed
  done := if r.arguments.flag = 1 then l.done + 1 else l.done
  i := l.i + 1

/-- `&array_of_statuses[i]` is no status, and not `EMPI_STATUS_IGNORE` either. -/
def Waitall.Strays (l : Waitall α) : Prop := l.statuses.length ≤ l.i ∧ 0 < l.i

instance (l : Waitall α) : Decidable l.Strays :=
  inferInstanceAs (Decidable (l.statuses.length ≤ l.i ∧ 0 < l.i))

/-- A round of the loops.  A test that fails ends the process, so that no errors are counted; and
one that has completed writes a status. -/
def Waitall.round (pk : Packing α) (mpiAnyTag : Int) (l : Waitall α) :
    Waitall α ⊕ Result (Waitall α) :=
  match l.array[l.i]? with
  | none =>
    if l.done < l.array.length then .inl { l with i := 0 } else .inr (.returned l)
  | some req =>
    if req = requestNull then
      .inl { l with i := l.i + 1 }
    else
      match empiTest pk mpiAnyTag l.client ⟨req, 0, l.statuses[l.i]?⟩ with
      | .returned r =>
        if r.arguments.flag = 1 ∧ l.Strays then .inr .crashed else .inl (l.tested r)
      | .waiting r => .inr (.waiting { l with client := r.client })
      | .crashed => .inr .crashed
      | .undefined => .inr .undefined

/-- `EMPI_Waitany` in its inner loop.  There is one flag and one status for all tests. -/
structure Waitany (α : Type) where
  client : Client α
  array : List Int
  flag : Int
  status : Option Status
  index : Int
  freed : Option (Posted α)
  undef : Nat
  i : Nat

/-- `EMPI_Waitany` before its loop. -/
def Waitany.start (s : Client α) (array : List Int) (status : Option Status) (index : Int) :
    Waitany α where
  client := s
  array := array
  flag := 0
  status := status
  index := index
  freed := none
  undef := 0
  i := 0

/-- What a test does to the variables of `EMPI_Waitany`. -/
def Waitany.tested (l : Waitany α) (r : Return α) : Waitany α :=
  { l with
    client := r.client
    array := l.array.set l.i r.arguments.req
    flag := r.arguments.flag
    status := r.arguments.status }

/-- A round of the loops. -/
def Waitany.round (pk : Packing α) (mpiAnyTag : Int) (l : Waitany α) :
    Waitany α ⊕ Result (Waitany α) :=
  match l.array[l.i]? with
  | none =>
    if l.undef = l.array.length then
      .inr (.returned
        { l with index := empiUndefined, status := l.status.map fun _ => clearStatus })
    else
      .inl { l with undef := 0, i := 0 }
  | some req =>
    if req = requestNull then
      .inl { l with undef := l.undef + 1, i := l.i + 1 }
    else
      match empiTest pk mpiAnyTag l.client ⟨req, l.flag, l.status⟩ with
      | .returned r =>
        if r.arguments.flag = 0 then
          .inl { l.tested r with i := l.i + 1 }
        else
          .inr (.returned { l.tested r with index := l.i, freed := r.request })
      | .waiting r => .inr (.waiting { l with client := r.client })
      | .crashed => .inr .crashed
      | .undefined => .inr .undefined

/-- The request has room for just the elements of the message, if it is for the request. -/
def Posted.Fits (p : Posted α) (a : Arrival) : Prop :=
  p.isLocal = false → p.isSend = false → p.pattern.Matches a = true → a.message.count = p.count

/-- The sender of a message of the own cluster is found in the tables. -/
def Posted.Knows (p : Posted α) (m : LocalSend α) : Prop :=
  (p.c.getLocalRank m.sender).bind p.c.getGlobalRank = some m.sender

/-- A request that a test can finish.  It is not one that `EMPI_Request_get_status` has
finished. -/
structure Ready (p : Posted α) (mb : Mailbox) : Prop where
  untouched : p.unpacked = false
  found : p.completed = true → ∀ a, p.message = some a → a.message.count = p.count
  fits : ∀ a ∈ mb.contents p.pattern.comm, p.Fits a
  sender : ∀ m, p.req = .received m → p.Knows m

/-- **The requests of an array** are different ones, and each is ready. -/
structure Awaited (pk : Packing α) (mpiAnyTag : Int) (array : List Int) (s : Client α) : Prop where
  reachable : Reachable pk mpiAnyTag s
  known : ∀ a ∈ s.mailbox.incoming, (s.mailbox.queue a.message.comm).isSome
  distinct : ∀ (i j : Nat) (req : Int), array[i]? = some req → array[j]? = some req →
    req ≠ requestNull → i = j
  ready : ∀ req ∈ array, req ≠ requestNull → ∃ p, s.handleToRequest req = some p ∧
    Ready p s.mailbox

/-- **What happens meanwhile**: a message arrives that fits the requests of the array, for a
communicator that the process has, or the library completes an operation. -/
inductive Meanwhile (pk : Packing α) (mpiAnyTag : Int) (array : List Int) :
    Client α → Client α → Prop
  | arrive {s : Client α} (a : Arrival) {xs : List α} {rank : Nat} (hsent : Sent pk a xs rank)
      (hknown : (s.mailbox.queue a.message.comm).isSome)
      (hfits : ∀ req ∈ array, ∀ p, s.handleToRequest req = some p → p.Fits a) :
      Meanwhile pk mpiAnyTag array s { s with mailbox := s.mailbox.arrive a }
  | sent {s : Client α} {handle : Nat} {p : Posted α} (hp : s.reqs handle = some p)
      (hreq : p.req = .active) (hsend : p.isSend = true) :
      Meanwhile pk mpiAnyTag array s (s.put handle { p with req := .sent })
  | received {s : Client α} {handle : Nat} {p : Posted α} {m : LocalSend α}
      (hp : s.reqs handle = some p) (hreq : p.req = .active) (hsend : p.isSend = false)
      (haccepts : Accepts mpiAnyTag p m) (hknows : p.Knows m) :
      Meanwhile pk mpiAnyTag array s
        (s.put handle { p with toRequest := p.toRequest.write m, req := .received m })

/-- The operation of a request has completed, or the message is there that it is for. -/
inductive Arrived (p : Posted α) (mb : Mailbox) : Prop where
  | completed (h : HasCompleted p mb)
  | stored (hlocal : p.isLocal = false) (hsend : p.isSend = false) {a : Arrival}
      (ha : a ∈ mb.contents p.pattern.comm) (hmatch : p.pattern.Matches a = true)

section Searches

variable {mb mb' : Mailbox} {pat : Pattern} {a : Arrival}

/-- A search that finds nothing takes the next message from MPI. -/
theorem incoming_of_pending (h : mb.poll pat false = .pending mb') :
    mb'.incoming = mb.incoming.tail := by
  rw [Mailbox.poll] at h
  split at h
  · cases h
  · cases hincoming : mb.incoming with
    | nil =>
        rw [hincoming] at h
        cases h
        rfl
    | cons b rest =>
        rw [hincoming, Mailbox.probeIncoming] at h
        split at h
        · cases h
        · cases hstore : Mailbox.storeMessage ⟨rest, mb.queue⟩ b with
          | none => simp [hstore] at h
          | some stored =>
              simp only [hstore, Bool.false_eq_true, if_false] at h
              cases h
              exact congrArg Mailbox.incoming (Mailbox.incoming_storeMessage hstore).symm

/-- A search takes no more than one message from MPI. -/
theorem incoming_of_found (h : mb.poll pat false = .found a mb') :
    mb'.incoming.length ≤ mb.incoming.length := by
  rw [Mailbox.poll] at h
  cases hpending : mb.findPendingMessage pat with
  | some r =>
      obtain ⟨l, hl, hr⟩ := Option.bind_eq_some_iff.mp hpending
      obtain ⟨r', _, rfl⟩ := Option.map_eq_some_iff.mp hr
      rw [hpending] at h
      cases h
      exact Nat.le_refl _
  | none =>
      rw [hpending] at h
      cases hincoming : mb.incoming with
      | nil =>
          rw [hincoming] at h
          cases h
      | cons b rest =>
          simp only [hincoming, Mailbox.probeIncoming] at h
          split at h
          · cases h
            exact Nat.le_succ _
          · split at h
            · cases h
            · cases h

/-- What is left in a mailbox by a search for one message. -/
structure Swept (mb mb' : Mailbox) : Prop where
  contents : ∀ comm, mb'.contents comm ⊆ mb.contents comm
  incoming : mb'.incoming ⊆ mb.incoming
  length_le : mb'.incoming.length ≤ mb.incoming.length
  queue : ∀ comm, (mb'.queue comm).isSome = (mb.queue comm).isSome

theorem Swept.refl (mb : Mailbox) : Swept mb mb :=
  ⟨fun _ => List.Subset.refl _, List.Subset.refl _, Nat.le_refl _, fun _ => rfl⟩

theorem swept_of_found (h : mb.poll pat false = .found a mb') : Swept mb mb' := by
  obtain ⟨hincoming, hqueue⟩ := Mailbox.searched_poll (Or.inl ⟨a, h⟩)
  obtain ⟨htake, hothers⟩ := Mailbox.poll_found h
  refine ⟨fun comm => ?_, hincoming, incoming_of_found h, hqueue⟩
  by_cases heq : comm = pat.comm
  · rw [heq]
    exact subset_of_takeFirst htake
  · rw [hothers comm heq]
    exact List.Subset.refl _

theorem swept_of_pending (h : mb.poll pat false = .pending mb') : Swept mb mb' := by
  obtain ⟨hincoming, hqueue⟩ := Mailbox.searched_poll (Or.inr h)
  refine ⟨fun comm => ?_, hincoming, ?_, hqueue⟩
  · rw [Mailbox.poll_pending h]
    exact List.Subset.refl _
  · rw [incoming_of_pending h, List.length_tail]
    exact Nat.sub_le _ _

/-- A search that finds nothing where there is something has taken a message from MPI. -/
theorem incoming_lt_of_pending (h : mb.poll pat false = .pending mb')
    (ha : a ∈ mb.contents pat.comm) (hmatch : pat.Matches a = true) :
    mb'.incoming.length < mb.incoming.length := by
  have hincoming : a ∈ mb.incoming := by
    rcases List.mem_append.mp ha with hqueue | hrest
    · obtain ⟨r, hr⟩ := findPendingMessage_of_mem hqueue hmatch
      rw [poll_of_pending hr] at h
      cases h
    · exact List.mem_of_mem_filter hrest
  have hpos := List.length_pos_of_mem hincoming
  rw [incoming_of_pending h, List.length_tail]
  omega

end Searches

/-- A list with its own element written back. -/
theorem set_of_getElem? {β : Type} {xs : List β} {i : Nat} {x : β} (h : xs[i]? = some x) :
    xs.set i x = xs := by
  obtain ⟨hlt, rfl⟩ := List.getElem?_eq_some_iff.mp h
  exact List.set_getElem_self hlt

section Tests

variable {pk : Packing α} {mpiAnyTag : Int} {array : List Int} {s s' : Client α} {p : Posted α}
  {mb : Mailbox} {req : Int} {status : Option Status} {x : Probing α} {i : Nat}

/-- A test that leaves a request alone has looked for a message from another cluster, if the
request is for one. -/
theorem probe_open (h : probe pk mpiAnyTag false ⟨p, mb, 0, status⟩ = .returned x)
    (hflag : x.flag = 0) : x.status = status ∧
      (p.isLocal = true ∧ x.mailbox = mb ∨
        p.isLocal = false ∧ mb.poll p.pattern false = .pending x.mailbox) := by
  have hone : ∀ {P : Prop}, x.flag = 1 → P := fun hflag' => by
    rw [hflag] at hflag'
    cases hflag'
  rw [probe] at h
  split at h
  · next hlocal =>
    rw [probeLocal] at h
    split at h
    · cases h
      exact ⟨rfl, Or.inl ⟨hlocal, rfl⟩⟩
    · split at h
      · cases h
        cases hflag
      · exact hone (flag_of_map (fun _ => rfl) h)
  · next hwide =>
    have hlocal : p.isLocal = false := by simpa using hwide
    split at h
    · cases h
      cases hflag
    · split at h
      · rw [probeReceive] at h
        cases hprobe : messagingProbeReceive p.toRequest false mb with
        | crashed => simp [hprobe] at h
        | waiting mb' => simp [hprobe] at h
        | done r mb' =>
            simp only [hprobe] at h
            split at h
            · exact hone (flag_of_finalize h)
            · next hopen =>
              cases h
              rcases messagingProbeReceive_cases hprobe with
                ⟨hdone, rfl, rfl⟩ | ⟨_, a, _, rfl⟩ | ⟨_, hpending, rfl⟩
              · exact absurd hdone hopen
              · exact absurd rfl hopen
              · exact ⟨rfl, Or.inr ⟨hlocal, hpending⟩⟩
      · rw [probeAny] at h
        split at h
        · cases h
          cases hflag
        · split at h
          · cases hprobe : messagingProbeReceive p.toRequest false mb with
            | crashed => simp [hprobe] at h
            | waiting mb' => simp [hprobe] at h
            | done r mb' =>
                simp only [hprobe, Bool.false_eq_true, if_false] at h
                split at h
                · exact hone (flag_of_finalize h)
                · next hopen =>
                  cases h
                  rcases messagingProbeReceive_cases hprobe with
                    ⟨hdone, rfl, rfl⟩ | ⟨_, a, _, rfl⟩ | ⟨_, hpending, rfl⟩
                  · exact absurd hdone hopen
                  · exact absurd rfl hopen
                  · exact ⟨rfl, Or.inr ⟨hlocal, hpending⟩⟩
          · exact hone (flag_of_map (fun _ => rfl) h)

/-- A test takes one message at most. -/
theorem swept_of_probe {flag : Int}
    (h : probe pk mpiAnyTag false ⟨p, mb, flag, status⟩ = .returned x) : Swept mb x.mailbox := by
  have hsearch : ∀ {r mb'}, messagingProbeReceive p.toRequest false mb = .done r mb' →
      Swept mb mb' := by
    intro r mb' hprobe
    rcases messagingProbeReceive_cases hprobe with
      ⟨_, _, rfl⟩ | ⟨_, a, hfound, _⟩ | ⟨_, hpending, _⟩
    · exact Swept.refl _
    · exact swept_of_found hfound
    · exact swept_of_pending hpending
  have htranslate : ∀ {st : Result (Option Status)} {f : Option Status → Probing α},
      (∀ o, (f o).mailbox = mb) → st.map f = .returned x → Swept mb x.mailbox := by
    intro st f hf hmap
    obtain ⟨o, rfl⟩ := map_eq_of_ends (Or.inl hmap)
    rw [hf]
    exact Swept.refl _
  have hfinal : ∀ {y : Probing α}, finalize pk y = .returned x → x.mailbox = y.mailbox := by
    intro y hy
    obtain ⟨_, _, _, rfl⟩ := finalize_eq_returned hy
    rfl
  rw [probe] at h
  split at h
  · rw [probeLocal] at h
    split at h
    · cases h
      exact Swept.refl _
    · split at h
      · cases h
        exact Swept.refl _
      · exact htranslate (fun _ => rfl) h
  · split at h
    · cases h
      exact Swept.refl _
    · split at h
      · rw [probeReceive] at h
        cases hprobe : messagingProbeReceive p.toRequest false mb with
        | crashed => simp [hprobe] at h
        | waiting mb' => simp [hprobe] at h
        | done r mb' =>
            simp only [hprobe] at h
            split at h
            · rw [hfinal h]
              exact hsearch hprobe
            · cases h
              exact hsearch hprobe
      · rw [probeAny] at h
        split at h
        · cases h
          exact Swept.refl _
        · split at h
          · cases hprobe : messagingProbeReceive p.toRequest false mb with
            | crashed => simp [hprobe] at h
            | waiting mb' => simp [hprobe] at h
            | done r mb' =>
                simp only [hprobe, Bool.false_eq_true, if_false] at h
                split at h
                · rw [hfinal h]
                  exact hsearch hprobe
                · cases h
                  exact hsearch hprobe
          · exact htranslate (fun _ => rfl) h

/-- A request that is ready meets the condition of a test. -/
theorem Ready.testCondition (h : Ready p mb) : TestCondition pk p mb 0 status where
  flag _ _ _ _ := rfl
  unpacked hunpacked := by
    rw [h.untouched] at hunpacked
    cases hunpacked
  count hlocal hsend _ _ _ a ha := by
    rw [Posted.incoming] at ha
    split at ha
    · next hcompleted => exact h.found hcompleted a ha
    · obtain ⟨⟨b, rest⟩, htake, rfl⟩ := Option.map_eq_some_iff.mp ha
      exact h.fits b (mem_of_takeFirst htake) hlocal hsend (of_takeFirst htake)
  sender _ m hm := Or.inr (h.sender m hm)

theorem Ready.probesProperly (h : Ready p mb) (hpk : pk.Lawful) (hlive : Live pk mpiAnyTag p)
    (hsent : AllSent pk mb) (hnext : NextKnown mb) :
    ProbesProperly pk mpiAnyTag p mb 0 status := by
  have hcondition : TestCondition pk p mb 0 status := h.testCondition
  cases hlocal : p.isLocal with
  | true => exact (probesProperly_local hlive hlocal).mpr hcondition
  | false =>
      cases hsend : p.isSend with
      | true => exact (probesProperly_wideSend hlive hlocal hsend).mpr hcondition
      | false =>
          by_cases hsource : p.source = empiAnySource
          · exact (probesProperly_any hpk hlive hsent hnext hlocal hsend hsource).mpr hcondition
          · exact (probesProperly_named hpk hlive hsent hnext hlocal hsend hsource).mpr hcondition

/-- A mailbox with less in it. -/
theorem Ready.of_subset {mb' : Mailbox} (h : Ready p mb)
    (hcontents : ∀ comm, mb'.contents comm ⊆ mb.contents comm) : Ready p mb' where
  untouched := h.untouched
  found := h.found
  fits a ha := h.fits a (hcontents _ ha)
  sender := h.sender

/-- The handles of requests. -/
theorem toNat_inj_of_handleToRequest {req' : Int} {p' : Posted α}
    (h : s.handleToRequest req = some p) (h' : s.handleToRequest req' = some p')
    (heq : req.toNat = req'.toNat) : req = req' := by
  rw [Client.handleToRequest] at h h'
  split at h
  · cases h
  · split at h'
    · cases h'
    · omega

/-- A look-up in another table. -/
theorem handleToRequest_of_reqs (h : s.handleToRequest req = some p) {q : Option (Posted α)}
    (hq : s'.reqs req.toNat = q) : s'.handleToRequest req = q := by
  rw [Client.handleToRequest] at h ⊢
  split at h
  · cases h
  · next hrange => rw [if_neg hrange, hq]

/-- A test that takes a request out of the array. -/
structure Frees (pk : Packing α) (mpiAnyTag : Int) (array : List Int) (s : Client α) (i : Nat)
    (req : Int) (p : Posted α) (status : Option Status) (r : Return α) : Prop where
  flag : r.arguments.flag = 1
  handle : r.arguments.req = requestNull
  completed : HasCompleted p s.mailbox
  due : ∃ buf st, Due pk p s.mailbox buf st ∧ r.request.map (fun q => q.buf) = some buf ∧
    r.arguments.status = status.map fun _ => st
  reqs : r.client.reqs = Function.update s.reqs req.toNat none
  swept : Swept s.mailbox r.client.mailbox
  awaited : Awaited pk mpiAnyTag (array.set i requestNull) r.client

/-- A test that leaves all as it is, but for the next message from MPI. -/
structure Leaves (pk : Packing α) (mpiAnyTag : Int) (array : List Int) (s : Client α) (req : Int)
    (p : Posted α) (status : Option Status) (r : Return α) : Prop where
  arguments : r.arguments = ⟨req, 0, status⟩
  reqs : r.client.reqs = s.reqs
  contents : ∀ comm, r.client.mailbox.contents comm = s.mailbox.contents comm
  not_completed : ¬ HasCompleted p s.mailbox
  length_le : r.client.mailbox.incoming.length ≤ s.mailbox.incoming.length
  length_lt : Arrived p s.mailbox →
    r.client.mailbox.incoming.length < s.mailbox.incoming.length
  awaited : Awaited pk mpiAnyTag array r.client

/-- **A test** of a request of the array. -/
theorem Awaited.test (h : Awaited pk mpiAnyTag array s) (hpk : pk.Lawful)
    (hi : array[i]? = some req) (hne : req ≠ requestNull) (status : Option Status) :
    ∃ p r, s.handleToRequest req = some p ∧
      empiTest pk mpiAnyTag s ⟨req, 0, status⟩ = .returned r ∧
        (Frees pk mpiAnyTag array s i req p status r ∨
          Leaves pk mpiAnyTag array s req p status r) := by
  obtain ⟨p, hp, hready⟩ := h.ready req (List.mem_of_getElem? hi) hne
  have hinv := inv_of_reachable h.reachable
  have hlive := hinv.live _ p (handleToRequest_eq_some hp)
  have hnext : NextKnown s.mailbox := fun a ha => h.known a (List.mem_of_mem_head? ha)
  have hprobes : ProbesProperly pk mpiAnyTag p s.mailbox 0 status :=
    hready.probesProperly hpk hlive hinv.mailbox hnext
  obtain ⟨x, hx, hcase⟩ := hprobes
  have htest : empiTest pk mpiAnyTag s ⟨req, 0, status⟩ =
      .returned (finish s ⟨req, 0, status⟩ x) := by
    rw [empiTest, probeRequest, if_neg hne, hp]
    exact congrArg (Result.map (finish s ⟨req, 0, status⟩)) hx
  have hswept := swept_of_probe hx
  have hknown : ∀ a ∈ x.mailbox.incoming, (x.mailbox.queue a.message.comm).isSome := by
    intro a ha
    rw [hswept.queue]
    exact h.known a (hswept.incoming ha)
  have hreachable : Reachable pk mpiAnyTag (finish s ⟨req, 0, status⟩ x).client := by
    obtain ⟨known, hrun⟩ := h.reachable
    exact ⟨known, hrun.tail (.test _ htest)⟩
  refine ⟨p, _, hp, htest, ?_⟩
  rcases hcase with ⟨hflag, hdone, buf, st, hdue, hbuf, hst⟩ | ⟨hflag, hopen, hsame⟩
  · left
    rw [finish, if_pos hflag] at hreachable ⊢
    refine ⟨rfl, rfl, hdone, ⟨buf, st, hdue, congrArg some hbuf, hst⟩, rfl, hswept, hreachable,
      hknown, fun j k req' hj hk hne' => ?_, fun req' hmem hne' => ?_⟩
    · have hset : ∀ {j : Nat}, (array.set i requestNull)[j]? = some req' →
          array[j]? = some req' := by
        intro j hj
        rw [List.getElem?_set] at hj
        split at hj
        · split at hj
          · cases hj
            exact absurd rfl hne'
          · cases hj
        · exact hj
      exact h.distinct j k req' (hset hj) (hset hk) hne'
    · obtain ⟨j, hj⟩ := List.getElem?_of_mem hmem
      rw [List.getElem?_set] at hj
      split at hj
      · split at hj
        · cases hj
          exact absurd rfl hne'
        · cases hj
      · next hij =>
        obtain ⟨p', hp', hready'⟩ := h.ready req' (List.mem_of_getElem? hj) hne'
        have hother : req'.toNat ≠ req.toNat := by
          intro heq
          have hsame := toNat_inj_of_handleToRequest hp' hp heq
          exact hij (h.distinct i j req hi (hsame ▸ hj) hne)
        refine ⟨p', handleToRequest_of_reqs hp' ?_, hready'.of_subset hswept.contents⟩
        exact (Function.update_of_ne hother _ _).trans (handleToRequest_eq_some hp')
  · right
    obtain ⟨hstatus, hmailbox⟩ := probe_open hx hflag
    have hreqs : Function.update s.reqs req.toNat (some x.request) = s.reqs := by
      rw [hsame, ← handleToRequest_eq_some hp, Function.update_eq_self]
    have hcontents : ∀ comm, x.mailbox.contents comm = s.mailbox.contents comm := by
      intro comm
      rcases hmailbox with ⟨_, hmailbox⟩ | ⟨_, hpending⟩
      · rw [hmailbox]
      · exact Mailbox.poll_pending hpending comm
    rw [finish, if_neg (by rw [hflag]; decide)] at hreachable ⊢
    refine ⟨by simp [hflag, hstatus], hreqs, hcontents, hopen, hswept.length_le, fun harrived => ?_,
      hreachable, hknown, h.distinct, fun req' hmem hne' => ?_⟩
    · cases harrived with
      | completed hdone => exact absurd hdone hopen
      | stored hlocal hsend ha hmatch =>
          rcases hmailbox with ⟨hlocal', _⟩ | ⟨_, hpending⟩
          · rw [hlocal] at hlocal'
            cases hlocal'
          · exact incoming_lt_of_pending hpending ha hmatch
    · obtain ⟨p', hp', hready'⟩ := h.ready req' hmem hne'
      refine ⟨p', handleToRequest_of_reqs hp' ?_, hready'.of_subset hswept.contents⟩
      show Function.update s.reqs req.toNat (some x.request) req'.toNat = some p'
      rw [hreqs]
      exact handleToRequest_eq_some hp'

/-- What happens meanwhile are steps of a run. -/
theorem step_of_meanwhile (h : Meanwhile pk mpiAnyTag array s s') : Step pk mpiAnyTag s s' := by
  cases h with
  | arrive a hsent => exact .arrive a hsent
  | sent hp hreq hsend => exact .sent hp hreq hsend
  | received hp hreq hsend haccepts => exact .received hp hreq hsend haccepts

/-- A request is as it was posted, or the library has completed it since. -/
inductive Posted.Becomes (mpiAnyTag : Int) (p : Posted α) : Posted α → Prop where
  | refl : p.Becomes mpiAnyTag p
  | sent (hreq : p.req = .active) (hsend : p.isSend = true) :
      p.Becomes mpiAnyTag { p with req := .sent }
  | received {m : LocalSend α} (hreq : p.req = .active) (hsend : p.isSend = false)
      (haccepts : Accepts mpiAnyTag p m) :
      p.Becomes mpiAnyTag { p with toRequest := p.toRequest.write m, req := .received m }

theorem eq_of_becomes {q : Posted α} (h : p.Becomes mpiAnyTag q) (hreq : q.req = .active) :
    q = p := by
  cases h with
  | refl => rfl
  | sent => cases hreq
  | received => cases hreq

/-- What the library completes becomes so once. -/
theorem becomes_of_meanwhile (h : Meanwhile pk mpiAnyTag array s s')
    (hp : s.handleToRequest req = some p) {q : Posted α} (hbecomes : q.Becomes mpiAnyTag p) :
    ∃ p', s'.handleToRequest req = some p' ∧ q.Becomes mpiAnyTag p' := by
  have hreqs := handleToRequest_eq_some hp
  cases h with
  | arrive a => exact ⟨p, handleToRequest_of_reqs hp hreqs, hbecomes⟩
  | @sent handle p₁ hp₁ hreq hsend =>
      by_cases hsame : req.toNat = handle
      · subst hsame
        rw [hreqs] at hp₁
        cases hp₁
        obtain rfl := eq_of_becomes hbecomes hreq
        exact ⟨_, handleToRequest_of_reqs hp (Function.update_self _ _ _), .sent hreq hsend⟩
      · exact ⟨p, handleToRequest_of_reqs hp ((Function.update_of_ne hsame _ _).trans hreqs),
          hbecomes⟩
  | @received handle p₁ m hp₁ hreq hsend haccepts hknows =>
      by_cases hsame : req.toNat = handle
      · subst hsame
        rw [hreqs] at hp₁
        cases hp₁
        obtain rfl := eq_of_becomes hbecomes hreq
        exact ⟨_, handleToRequest_of_reqs hp (Function.update_self _ _ _),
          .received hreq hsend haccepts⟩
      · exact ⟨p, handleToRequest_of_reqs hp ((Function.update_of_ne hsame _ _).trans hreqs),
          hbecomes⟩

/-- What happens meanwhile leaves the requests ready. -/
theorem Awaited.meanwhile (h : Awaited pk mpiAnyTag array s)
    (hstep : Meanwhile pk mpiAnyTag array s s') : Awaited pk mpiAnyTag array s' := by
  obtain ⟨known, hrun⟩ := h.reachable
  refine ⟨⟨known, hrun.tail (step_of_meanwhile hstep)⟩, ?_, h.distinct, fun req hmem hne => ?_⟩
  · cases hstep with
    | arrive a hsent hknown =>
        intro b hb
        rcases List.mem_append.mp hb with hb | hb
        · exact h.known b hb
        · rw [List.mem_singleton.mp hb]
          exact hknown
    | sent => exact h.known
    | received => exact h.known
  · obtain ⟨p, hp, hready⟩ := h.ready req hmem hne
    have hreqs := handleToRequest_eq_some hp
    cases hstep with
    | arrive a hsent hknown hfits =>
        refine ⟨p, handleToRequest_of_reqs hp hreqs, hready.untouched, hready.found,
          fun b hb => ?_, hready.sender⟩
        rw [Mailbox.contents_arrive] at hb
        rcases List.mem_append.mp hb with hb | hb
        · exact hready.fits b hb
        · split at hb
          · rw [List.mem_singleton.mp hb]
            exact hfits req hmem p hp
          · cases hb
    | @sent handle p₁ hp₁ hreq hsend =>
        by_cases hsame : req.toNat = handle
        · subst hsame
          rw [hreqs] at hp₁
          cases hp₁
          refine ⟨_, handleToRequest_of_reqs hp (Function.update_self _ _ _), hready.untouched,
            hready.found, hready.fits, fun m hm => ?_⟩
          cases hm
        · exact ⟨p, handleToRequest_of_reqs hp ((Function.update_of_ne hsame _ _).trans hreqs),
            hready⟩
    | @received handle p₁ m hp₁ hreq hsend haccepts hknows =>
        by_cases hsame : req.toNat = handle
        · subst hsame
          rw [hreqs] at hp₁
          cases hp₁
          refine ⟨_, handleToRequest_of_reqs hp (Function.update_self _ _ _), hready.untouched,
            hready.found, hready.fits, fun m' hm' => ?_⟩
          cases hm'
          exact hknows
        · exact ⟨p, handleToRequest_of_reqs hp ((Function.update_of_ne hsame _ _).trans hreqs),
            hready⟩

end Tests

end Requests

end EsalsaMpi
