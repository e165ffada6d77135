import EsalsaMpi.Backend.Receive

/-!
# Outstanding receives

`EMPI_Irecv` from another cluster posts nothing: the request looks for its
message once, and again whenever `EMPI_Test`, `EMPI_Wait` or `EMPI_Waitall`
poll it.  So which of two outstanding requests gets the message that comes
first is decided by which of them is polled first after it came.

A run is a sequence of arrivals and calls (`Receiver.step`).  MPI asks that the
requests with one communicator, source and tag complete in the order in which
they were posted, with the messages in the order in which they were sent
(`Receiver.InPostedOrder`).  It holds in every state of a run in which no poll
overtakes: one that finds a message comes only when the earlier requests of the
kind have completed (`Receiver.inPostedOrder_of_orderly`).
-/

namespace EsalsaMpi

open MatchQueue

/-- The receive side of a process: what has come to it, what it has not
consumed, and its requests in the order in which they were posted. -/
structure Receiver (α : Type) where
  mailbox : Mailbox
  arrived : List Arrival
  requests : List (Request α)

/-- An arrival, a call, or a receive from any source that the local library
completes.  `EMPI_Waitall` is a sequence of tests. -/
inductive ReceiveEvent (α : Type) where
  | arrive (m : DataMessage)
  | irecv (buf : List α) (count : Nat) (type source tag : Int) (c : Communicator)
  | test (i : Nat)
  | wait (i : Nat)
  | completeLocally (i : Nat)

/-- `probe_request` for a wide-area receive.  The request of a call that has
completed it is freed; polling it again does nothing. -/
def probeRequest {α : Type} (pk : Packing α) (r : Request α) (blocking : Bool)
    (mb : Mailbox) : Received (Request α) :=
  match messagingProbeReceive r blocking mb with
  | .done r mb' =>
    if r.completed then
      match messagingFinalizeReceive pk r with
      | some (r', _) => .done r' mb'
      | none => .crashed
    else
      .done r mb'
  | .waiting mb' => .waiting mb'
  | .crashed => .crashed

namespace Receiver

variable {α : Type}

/-- A process that knows the given communicators and has received nothing. -/
def start (known : Nat → Bool) : Receiver α :=
  ⟨⟨[], fun h => if known h then some [] else none⟩, [], []⟩

/-- Poll the request `i`. -/
def poll (pk : Packing α) (s : Receiver α) (i : Nat) (blocking : Bool) :
    Option (Receiver α) :=
  s.requests[i]?.bind fun r =>
    match probeRequest pk r blocking s.mailbox with
    | .done r' mb => some { s with mailbox := mb, requests := s.requests.set i r' }
    | _ => none

/-- One event.  `none` is a process that has ended, or one that still waits in a
blocking call; such a call happens when its message is there.  A wait for any
source is a loop of tests. -/
def step (pk : Packing α) (s : Receiver α) : ReceiveEvent α → Option (Receiver α)
  | .arrive m =>
    let a : Arrival := ⟨s.arrived.length, m⟩
    some { s with mailbox := s.mailbox.arrive a, arrived := s.arrived ++ [a] }
  | .irecv buf count type source tag c =>
    let r := createRequest buf count type source tag c
    if source = empiAnySource then
      some { s with requests := s.requests ++ [r] }
    else
      match messagingProbeReceive r false s.mailbox with
      | .done r' mb => some { s with mailbox := mb, requests := s.requests ++ [r'] }
      | _ => none
  | .test i => s.poll pk i false
  | .wait i =>
    s.requests[i]?.bind fun r => s.poll pk i (decide (r.source ≠ empiAnySource))
  | .completeLocally i =>
    s.requests[i]?.bind fun r =>
      if r.source = empiAnySource ∧ r.completed = false then
        some { s with
          requests := s.requests.set i { r with completed := true, unpacked := true } }
      else
        none

/-- The message is held by a request that asks for something else. -/
def heldByOther (s : Receiver α) (pat : Pattern) (a : Arrival) : Bool :=
  s.requests.any fun r => decide (r.pattern ≠ pat) && decide (r.message = some a)

/-- The messages for the requests of one kind, in the order in which they
arrived. -/
def sentTo (s : Receiver α) (pat : Pattern) : List Arrival :=
  s.arrived.filter fun a => pat.Matches a && !s.heldByOther pat a

/-- The messages of the requests of one kind, in the order in which these were
posted. -/
def posted (s : Receiver α) (pat : Pattern) : List (Option Arrival) :=
  (s.requests.filter fun r => r.pattern = pat).map (·.message)

/-- The requests of the kind that have completed are those posted first, and
hold the messages sent first, in order. -/
def InPostedOrder (s : Receiver α) (pat : Pattern) : Prop :=
  ∃ l n, l <+: s.sentTo pat ∧ s.posted pat = l.map some ++ List.replicate n none

/-- The requests of the kind among those listed have completed. -/
def Done (requests : List (Request α)) (pat : Pattern) : Prop :=
  ∀ r ∈ requests, r.pattern = pat → r.completed = true

theorem done_of_all {requests : List (Request α)} {pat : Pattern}
    (h : requests.all (·.completed) = true) : Done requests pat :=
  fun r hr _ => List.all_eq_true.mp h r hr

/-- A poll of request `i` does not overtake: if it finds a message, the requests
of its kind posted before it have completed. -/
def PollsInTurn (s : Receiver α) (i : Nat) (blocking : Bool) : Prop :=
  ∀ r, s.requests[i]? = some r → r.completed = false → r.source ≠ empiAnySource →
    s.mailbox.Offers r.pattern blocking → Done (s.requests.take i) r.pattern

/-- An event does not overtake. -/
def InTurn (s : Receiver α) : ReceiveEvent α → Prop
  | .irecv _ _ _ source tag c =>
    source ≠ empiAnySource → s.mailbox.Offers ⟨c.handle, source, tag⟩ false →
      Done s.requests ⟨c.handle, source, tag⟩
  | .test i => s.PollsInTurn i false
  | .wait i => s.PollsInTurn i true
  | _ => True

/-- The states of the runs in which nothing overtakes. -/
inductive Orderly (pk : Packing α) : Receiver α → Prop where
  | start (known : Nat → Bool) : Orderly pk (start known)
  | step {s s' : Receiver α} {e : ReceiveEvent α} (h : Orderly pk s) (hturn : s.InTurn e)
      (hstep : s.step pk e = some s') : Orderly pk s'

section Requests

variable {pk : Packing α} {r r' : Request α} {blocking : Bool} {mb mb' : Mailbox}

/-- What a poll does to a request: nothing, or it completes it with a message
that it takes from the mailbox. -/
inductive Polled (r r' : Request α) (blocking : Bool) (mb mb' : Mailbox) : Prop where
  | kept (hpattern : r'.pattern = r.pattern) (hmessage : r'.message = r.message)
      (hcompleted : r'.completed = r.completed)
      (hcontents : ∀ comm, mb'.contents comm = mb.contents comm)
  | taken (hpattern : r'.pattern = r.pattern) (a : Arrival) (hopen : r.completed = false)
      (hmessage : r'.message = some a) (hcompleted : r'.completed = true)
      (hfound : mb.poll r.pattern blocking = .found a mb')

theorem messagingProbeReceive_done
    (h : messagingProbeReceive r blocking mb = .done r' mb') :
    Polled r r' blocking mb mb' := by
  unfold messagingProbeReceive at h
  split at h
  · cases h
    exact .kept rfl rfl rfl fun _ => rfl
  · next hopen =>
    cases hpoll : mb.poll r.pattern blocking with
    | found a mb₁ =>
        simp only [hpoll] at h
        cases h
        exact .taken rfl a (Bool.eq_false_iff.mpr hopen) rfl rfl hpoll
    | pending mb₁ =>
        simp only [hpoll] at h
        split at h
        · cases h
        · cases h
          exact .kept rfl rfl rfl (Mailbox.poll_pending hpoll)
    | crashed => simp [hpoll] at h

/-- Unpacking changes the buffer only. -/
theorem messagingFinalizeReceive_eq_some {status : Option Status}
    (h : messagingFinalizeReceive pk r = some (r', status)) :
    r'.pattern = r.pattern ∧ r'.message = r.message ∧ r'.completed = r.completed := by
  unfold messagingFinalizeReceive at h
  split at h
  · cases h
  · split at h
    · cases h
      exact ⟨rfl, rfl, rfl⟩
    · obtain ⟨a, _, h⟩ := Option.bind_eq_some_iff.mp h
      obtain ⟨result, _, h⟩ := Option.map_eq_some_iff.mp h
      cases h
      exact ⟨rfl, rfl, rfl⟩

theorem probeRequest_done (h : probeRequest pk r blocking mb = .done r' mb') :
    Polled r r' blocking mb mb' := by
  unfold probeRequest at h
  cases hprobe : messagingProbeReceive r blocking mb with
  | done r₁ mb₁ =>
      simp only [hprobe] at h
      have hpolled := messagingProbeReceive_done hprobe
      split at h
      · cases hfinal : messagingFinalizeReceive pk r₁ with
        | none => simp [hfinal] at h
        | some result =>
            obtain ⟨r₂, status⟩ := result
            simp only [hfinal] at h
            cases h
            obtain ⟨hpattern, hmessage, hcompleted⟩ := messagingFinalizeReceive_eq_some hfinal
            cases hpolled with
            | kept hp hm hc hcontents =>
                exact .kept (hpattern.trans hp) (hmessage.trans hm) (hcompleted.trans hc)
                  hcontents
            | taken hp a hopen hm hc hfound =>
                exact .taken (hpattern.trans hp) a hopen (hmessage.trans hm)
                  (hcompleted.trans hc) hfound
      · cases h
        exact hpolled
  | waiting mb₁ => simp [hprobe] at h
  | crashed => simp [hprobe] at h

end Requests

/-- **What holds between arrivals and requests.**  The messages for the requests
of a kind are those that the first of them hold and, behind these, those that
are still there. -/
structure Inv (s : Receiver α) : Prop where
  seqs : s.arrived.map (·.seq) = List.range s.arrived.length
  contents : ∀ comm, s.mailbox.contents comm ⊆ s.arrived
  held : ∀ r ∈ s.requests, ∀ a, r.message = some a → a ∈ s.arrived
  opened : ∀ r ∈ s.requests, r.completed = false → r.message = none
  completed : ∀ r ∈ s.requests, r.source ≠ empiAnySource → r.completed = true →
    r.message.isSome = true
  served : ∀ pat : Pattern, pat.source ≠ empiAnySource → ∃ l n,
    s.posted pat = l.map some ++ List.replicate n none ∧
      s.sentTo pat = l ++ (s.mailbox.contents pat.comm).filter pat.Matches

theorem Inv.nodup {s : Receiver α} (h : Inv s) : s.arrived.Nodup := by
  apply List.Nodup.of_map (·.seq)
  rw [h.seqs]
  exact List.nodup_range

theorem Inv.inPostedOrder {s : Receiver α} (h : Inv s) {pat : Pattern}
    (hpat : pat.source ≠ empiAnySource) : s.InPostedOrder pat := by
  obtain ⟨l, n, hposted, hsent⟩ := h.served pat hpat
  exact ⟨l, n, ⟨_, hsent.symm⟩, hposted⟩

theorem inv_start (known : Nat → Bool) : Inv (start known : Receiver α) where
  seqs := rfl
  contents comm := by
    cases hk : known comm <;> simp [start, Mailbox.contents, hk]
  held := by simp [start]
  opened := by simp [start]
  completed := by simp [start]
  served pat _ := by
    refine ⟨[], 0, rfl, ?_⟩
    cases hk : known pat.comm <;> simp [start, sentTo, Mailbox.contents, hk]

/-- An arrival comes behind all others. -/
theorem inv_arrive {s : Receiver α} (h : Inv s) {a : Arrival} (hseq : a.seq = s.arrived.length) :
    Inv { s with mailbox := s.mailbox.arrive a, arrived := s.arrived ++ [a] } where
  seqs := by
    rw [List.map_append, h.seqs, List.length_append, List.length_singleton, List.range_succ,
      ← hseq]
    rfl
  contents comm := by
    rw [Mailbox.contents_arrive]
    apply List.append_subset.mpr
    refine ⟨fun b hb => List.mem_append_left _ (h.contents comm hb), ?_⟩
    split <;> simp
  held r hr b hb := List.mem_append_left _ (h.held r hr b hb)
  opened := h.opened
  completed := h.completed
  served pat hpat := by
    obtain ⟨l, n, hposted, hsent⟩ := h.served pat hpat
    refine ⟨l, n, hposted, ?_⟩
    have hfresh : a ∉ s.arrived := by
      intro hmem
      have hmem' := List.mem_map_of_mem (f := (·.seq)) hmem
      rw [h.seqs, hseq] at hmem'
      exact Nat.lt_irrefl _ (List.mem_range.mp hmem')
    have hunheld : s.heldByOther pat a = false := by
      rw [heldByOther, List.any_eq_false]
      intro r hr
      have hne : r.message ≠ some a := fun heq => hfresh (h.held r hr _ heq)
      simp [hne]
    calc (s.arrived ++ [a]).filter (fun b => pat.Matches b && !s.heldByOther pat b)
        = s.sentTo pat ++ [a].filter pat.Matches := by
          rw [List.filter_append, sentTo]
          simp [List.filter_cons, hunheld]
      _ = l ++ (s.mailbox.contents pat.comm ++
            if a.message.comm = pat.comm then [a] else []).filter pat.Matches := by
          rw [hsent, List.filter_append, List.append_assoc]
          cases hm : pat.Matches a with
          | true => simp [hm, Pattern.comm_of_matches hm]
          | false => split <;> simp [hm]
      _ = l ++ ((s.mailbox.arrive a).contents pat.comm).filter pat.Matches := by
          rw [Mailbox.contents_arrive]

section Update

variable {s : Receiver α} {before after : List (Request α)} {r r' : Request α} {mb : Mailbox}
  {pat : Pattern}

/-- The requests of one kind, around the one that a step changes. -/
theorem posted_eq (hs : s.requests = before ++ r :: after) (pat : Pattern) :
    s.posted pat = (before.filter fun r => r.pattern = pat).map (·.message) ++
      (if r.pattern = pat then [r.message] else []) ++
        (after.filter fun r => r.pattern = pat).map (·.message) := by
  unfold posted
  rw [hs, List.filter_append, List.filter_cons]
  by_cases hp : r.pattern = pat <;> simp [hp]

theorem heldByOther_eq (hs : s.requests = before ++ r :: after) (pat : Pattern) (a : Arrival) :
    s.heldByOther pat a =
      (((before ++ after).any fun r => decide (r.pattern ≠ pat) && decide (r.message = some a)) ||
        decide (r.pattern ≠ pat) && decide (r.message = some a)) := by
  unfold heldByOther
  rw [hs, List.any_append, List.any_append, List.any_cons]
  ac_rfl

theorem mem_requests (hs : s.requests = before ++ r :: after) {q : Request α}
    (hq : q ∈ before ++ r' :: after) : q = r' ∨ q ∈ s.requests := by
  rw [hs]
  rcases List.mem_append.mp hq with hq | hq
  · exact Or.inr (List.mem_append_left _ hq)
  · rcases List.mem_cons.mp hq with hq | hq
    · exact Or.inl hq
    · exact Or.inr (List.mem_append_right _ (List.mem_cons_of_mem _ hq))

/-- A step that only moves messages from one place of the mailbox to another. -/
theorem inv_kept (h : Inv s) (hs : s.requests = before ++ r :: after)
    (hpattern : r'.pattern = r.pattern) (hmessage : r'.message = r.message)
    (hcompleted : r'.completed = r.completed ∨
      r.completed = false ∧ r.source = empiAnySource ∧ r'.completed = true)
    (hcontents : ∀ comm, mb.contents comm = s.mailbox.contents comm) :
    Inv { s with mailbox := mb, requests := before ++ r' :: after } := by
  have hr : r ∈ s.requests := hs ▸ List.mem_append_right _ List.mem_cons_self
  have hsource : r'.source = r.source := congrArg Pattern.source hpattern
  refine ⟨h.seqs, fun comm => hcontents comm ▸ h.contents comm, ?_, ?_, ?_, ?_⟩
  · intro q hq a ha
    rcases mem_requests hs hq with rfl | hq
    · exact h.held r hr a (hmessage ▸ ha)
    · exact h.held q hq a ha
  · intro q hq hopen
    rcases mem_requests hs hq with rfl | hq
    · rw [hmessage]
      rcases hcompleted with heq | ⟨_, _, hdone⟩
      · exact h.opened r hr (heq ▸ hopen)
      · rw [hopen] at hdone
        cases hdone
    · exact h.opened q hq hopen
  · intro q hq hany hdone
    rcases mem_requests hs hq with rfl | hq
    · rw [hmessage]
      rcases hcompleted with heq | ⟨_, hsrc, _⟩
      · exact h.completed r hr (hsource ▸ hany) (heq ▸ hdone)
      · exact absurd (hsource.trans hsrc) hany
    · exact h.completed q hq hany hdone
  · intro pat hpat
    obtain ⟨l, n, hposted, hsent⟩ := h.served pat hpat
    refine ⟨l, n, ?_, ?_⟩
    · rw [posted_eq (r := r') rfl pat, hpattern, hmessage, ← posted_eq hs pat]
      exact hposted
    · show _ = l ++ (mb.contents pat.comm).filter pat.Matches
      rw [hcontents, ← hsent]
      unfold sentTo
      congr 1
      funext a
      rw [heldByOther_eq (r := r') rfl, heldByOther_eq hs, hpattern, hmessage]

/-- The requests that have no message are the last ones, so the first of them
stands right behind those that do. -/
theorem served_split {l : List Arrival} {n : Nat} {done rest : List (Option Arrival)}
    (h : done ++ none :: rest = l.map some ++ List.replicate n none)
    (hdone : ∀ x ∈ done, x.isSome = true) :
    done = l.map some ∧ rest = List.replicate (n - 1) none := by
  induction done generalizing l with
  | nil =>
      cases l with
      | nil =>
          cases n with
          | zero => cases h
          | succ n => simpa [List.replicate_succ] using h
      | cons a l => cases h
  | cons x done ih =>
      cases l with
      | nil =>
          cases n with
          | zero => cases h
          | succ n =>
              rw [List.map_nil, List.nil_append, List.replicate_succ, List.cons_append] at h
              have hx := hdone x List.mem_cons_self
              rw [(List.cons.inj h).1] at hx
              cases hx
      | cons a l =>
          obtain ⟨rfl, htail⟩ := List.cons.inj h
          have hrest := ih htail fun y hy => hdone y (List.mem_cons_of_mem _ hy)
          exact ⟨by rw [hrest.1]; rfl, hrest.2⟩

/-- A step in which the request `r` takes the message `a`. -/
theorem inv_taken (h : Inv s) (hs : s.requests = before ++ r :: after)
    (hpattern : r'.pattern = r.pattern) {a : Arrival} (hopen : r.completed = false)
    (hmessage : r'.message = some a) (hcompleted : r'.completed = true)
    (htake : takeFirst r.pattern.Matches (s.mailbox.contents r.pattern.comm) =
      some (a, mb.contents r.pattern.comm))
    (hothers : ∀ comm, comm ≠ r.pattern.comm → mb.contents comm = s.mailbox.contents comm)
    (hturn : r.source ≠ empiAnySource → Done before r.pattern) :
    Inv { s with mailbox := mb, requests := before ++ r' :: after } := by
  have hr : r ∈ s.requests := hs ▸ List.mem_append_right _ List.mem_cons_self
  have hnone := h.opened r hr hopen
  have harrived : a ∈ s.arrived := h.contents _ (mem_of_takeFirst htake)
  refine ⟨h.seqs, ?_, ?_, ?_, ?_, ?_⟩
  · intro comm
    by_cases hcomm : comm = r.pattern.comm
    · subst hcomm
      exact List.Subset.trans (subset_of_takeFirst htake) (h.contents _)
    · exact hothers comm hcomm ▸ h.contents comm
  · intro q hq b hb
    rcases mem_requests hs hq with rfl | hq
    · cases Option.some.inj (hmessage.symm.trans hb)
      exact harrived
    · exact h.held q hq b hb
  · intro q hq hfalse
    rcases mem_requests hs hq with rfl | hq
    · rw [hcompleted] at hfalse
      cases hfalse
    · exact h.opened q hq hfalse
  · intro q hq hany hdone
    rcases mem_requests hs hq with rfl | hq
    · simp [hmessage]
    · exact h.completed q hq hany hdone
  · intro pat hpat
    obtain ⟨l, n, hposted, hsent⟩ := h.served pat hpat
    by_cases hp : r.pattern = pat
    · -- a request of this kind: the first that waits gets the first message
      subst hp
      rw [posted_eq hs, if_pos rfl, hnone, List.append_assoc, List.singleton_append] at hposted
      have hdone : ∀ x ∈ (before.filter fun q => q.pattern = r.pattern).map (·.message),
          x.isSome = true := by
        intro x hx
        obtain ⟨q, hq, rfl⟩ := List.mem_map.mp hx
        obtain ⟨hq, hqp⟩ := List.mem_filter.mp hq
        have hqp' := of_decide_eq_true hqp
        have hqsource : q.source ≠ empiAnySource := by
          have := congrArg Pattern.source hqp'
          exact fun heq => hpat (this ▸ heq)
        exact h.completed q (hs ▸ List.mem_append_left _ hq) hqsource (hturn hpat q hq hqp')
      obtain ⟨hbefore, hafter⟩ := served_split hposted hdone
      refine ⟨l ++ [a], n - 1, ?_, ?_⟩
      · rw [posted_eq (r := r') rfl, if_pos hpattern, hmessage, hbefore, hafter]
        simp
      · rw [List.append_assoc, List.singleton_append]
        rw [filter_takeFirst htake] at hsent
        rw [← hsent]
        unfold sentTo
        congr 1
        funext b
        rw [heldByOther_eq (r := r') rfl, heldByOther_eq hs]
        simp [hpattern]
    · -- another request: its message is no longer one for this kind
      have hnodup : (s.sentTo pat).Nodup := h.nodup.filter _
      rw [hsent] at hnodup
      have hnotMem : a ∉ l := by
        intro ha
        have hsentTo : a ∈ s.sentTo pat := hsent ▸ List.mem_append_left _ ha
        have hmatch : pat.Matches a = true := by
          have := List.of_mem_filter hsentTo
          simp only [Bool.and_eq_true] at this
          exact this.1
        have hcomm : r.pattern.comm = pat.comm :=
          (Pattern.comm_of_matches (of_takeFirst htake)).symm.trans
            (Pattern.comm_of_matches hmatch)
        have hmem := mem_of_takeFirst htake
        rw [hcomm] at hmem
        exact (List.nodup_append.mp hnodup).2.2 a ha a
          (List.mem_filter.mpr ⟨hmem, hmatch⟩) rfl
      have hrest : (mb.contents pat.comm).filter pat.Matches =
          ((s.mailbox.contents pat.comm).filter pat.Matches).filter (· ≠ a) := by
        by_cases hcomm : pat.comm = r.pattern.comm
        · rw [hcomm]
          rw [hcomm] at hnodup
          exact filter_takeFirst_of_nodup htake (List.nodup_append.mp hnodup).2.1
        · rw [hothers _ hcomm]
          symm
          rw [List.filter_eq_self]
          intro b hb
          apply decide_eq_true
          rintro rfl
          have hmatch := List.of_mem_filter hb
          exact hcomm ((Pattern.comm_of_matches hmatch).symm.trans
            (Pattern.comm_of_matches (of_takeFirst htake)))
      refine ⟨l, n, ?_, ?_⟩
      · rw [posted_eq (r := r') rfl, hpattern, if_neg hp]
        rw [posted_eq hs, if_neg hp] at hposted
        exact hposted
      · show _ = l ++ (mb.contents pat.comm).filter pat.Matches
        have hself : l.filter (· ≠ a) = l :=
          List.filter_eq_self.mpr fun b hb => decide_eq_true fun heq => hnotMem (heq ▸ hb)
        calc sentTo { s with mailbox := mb, requests := before ++ r' :: after } pat
            = (s.sentTo pat).filter (· ≠ a) := by
              unfold sentTo
              rw [List.filter_filter]
              congr 1
              funext b
              rw [heldByOther_eq (r := r') rfl, heldByOther_eq hs, hpattern, hmessage, hnone]
              cases hb : pat.Matches b <;> simp [hp, Bool.and_comm, eq_comm]
          _ = l ++ (mb.contents pat.comm).filter pat.Matches := by
              rw [hsent, List.filter_append, hself, hrest]

end Update

/-- A new request has no message. -/
theorem inv_post {s : Receiver α} (h : Inv s) {r : Request α} (hopen : r.completed = false)
    (hnone : r.message = none) : Inv { s with requests := s.requests ++ [r] } := by
  refine ⟨h.seqs, h.contents, ?_, ?_, ?_, ?_⟩
  · intro q hq a ha
    rcases List.mem_append.mp hq with hq | hq
    · exact h.held q hq a ha
    · rw [List.mem_singleton.mp hq, hnone] at ha
      cases ha
  · intro q hq hfalse
    rcases List.mem_append.mp hq with hq | hq
    · exact h.opened q hq hfalse
    · rw [List.mem_singleton.mp hq]
      exact hnone
  · intro q hq hany hdone
    rcases List.mem_append.mp hq with hq | hq
    · exact h.completed q hq hany hdone
    · rw [List.mem_singleton.mp hq, hopen] at hdone
      cases hdone
  · intro pat hpat
    obtain ⟨l, n, hposted, hsent⟩ := h.served pat hpat
    have hheld : ∀ b, heldByOther { s with requests := s.requests ++ [r] } pat b =
        s.heldByOther pat b := by
      intro b
      simp [heldByOther, hnone]
    refine ⟨l, if r.pattern = pat then n + 1 else n, ?_, ?_⟩
    · unfold posted at hposted ⊢
      rw [List.filter_append, List.map_append, hposted, List.append_assoc]
      congr 1
      by_cases hp : r.pattern = pat
      · rw [if_pos hp, List.replicate_succ']
        simp [hp, hnone]
      · simp [hp]
    · rw [← hsent]
      unfold sentTo
      simp [hheld]

/-- The requests around the one with index `i`. -/
theorem requests_split {l : List (Request α)} {i : Nat} {r : Request α} (hi : l[i]? = some r)
    (r' : Request α) :
    l = l.take i ++ r :: l.drop (i + 1) ∧ l.set i r' = l.take i ++ r' :: l.drop (i + 1) := by
  obtain ⟨hlt, rfl⟩ := List.getElem?_eq_some_iff.mp hi
  refine ⟨by simp, ?_⟩
  rw [List.set_eq_take_append_cons_drop, if_pos hlt]

variable {pk : Packing α} {s s' : Receiver α}

/-- A poll that does not overtake keeps the invariant. -/
theorem inv_polled (h : Inv s) {before after : List (Request α)} {r r' : Request α}
    {blocking : Bool} {mb : Mailbox} (hs : s.requests = before ++ r :: after)
    (hpolled : Polled r r' blocking s.mailbox mb)
    (hturn : r.completed = false → r.source ≠ empiAnySource →
      s.mailbox.Offers r.pattern blocking → Done before r.pattern) :
    Inv { s with mailbox := mb, requests := before ++ r' :: after } := by
  cases hpolled with
  | kept hpattern hmessage hcompleted hcontents =>
      exact inv_kept h hs hpattern hmessage (Or.inl hcompleted) hcontents
  | taken hpattern a hopen hmessage hcompleted hfound =>
      obtain ⟨htake, hothers⟩ := Mailbox.poll_found hfound
      exact inv_taken h hs hpattern hopen hmessage hcompleted htake hothers fun hany =>
        hturn hopen hany (Mailbox.offers_of_poll hfound)

theorem inv_poll (h : Inv s) {i : Nat} {blocking : Bool} (hturn : s.PollsInTurn i blocking)
    (hpoll : s.poll pk i blocking = some s') : Inv s' := by
  obtain ⟨r, hr, hpoll⟩ := Option.bind_eq_some_iff.mp hpoll
  cases hprobe : probeRequest pk r blocking s.mailbox with
  | done r' mb =>
      simp only [hprobe] at hpoll
      cases hpoll
      obtain ⟨hs, hset⟩ := requests_split hr r'
      rw [hset]
      exact inv_polled h hs (probeRequest_done hprobe) (hturn r hr)
  | waiting mb => simp [hprobe] at hpoll
  | crashed => simp [hprobe] at hpoll

/-- **One event** that does not overtake keeps the invariant. -/
theorem inv_step (h : Inv s) {e : ReceiveEvent α} (hturn : s.InTurn e)
    (hstep : s.step pk e = some s') : Inv s' := by
  cases e with
  | arrive m =>
      cases hstep
      exact inv_arrive h rfl
  | irecv buf count type source tag c =>
      simp only [step] at hstep
      have hpost := inv_post h (r := createRequest buf count type source tag c) rfl rfl
      split at hstep
      · cases hstep
        exact hpost
      · next hany =>
        cases hprobe : messagingProbeReceive (createRequest buf count type source tag c) false
            s.mailbox with
        | done r' mb =>
            simp only [hprobe] at hstep
            cases hstep
            exact inv_polled hpost rfl (messagingProbeReceive_done hprobe)
              fun _ hany => hturn hany
        | waiting mb => simp [hprobe] at hstep
        | crashed => simp [hprobe] at hstep
  | test i => exact inv_poll h hturn hstep
  | wait i =>
      obtain ⟨r, hr, hpoll⟩ := Option.bind_eq_some_iff.mp hstep
      by_cases hany : r.source = empiAnySource
      · -- one round of the loop over tests, which no other kind of receive minds
        simp only [hany, ne_eq, not_true, decide_false] at hpoll
        refine inv_poll h ?_ hpoll
        intro r' hr' _ hany'
        cases Option.some.inj (hr.symm.trans hr')
        exact absurd hany hany'
      · simp only [ne_eq, hany, not_false_iff, decide_true] at hpoll
        exact inv_poll h hturn hpoll
  | completeLocally i =>
      obtain ⟨r, hr, hstep⟩ := Option.bind_eq_some_iff.mp hstep
      by_cases hlocal : r.source = empiAnySource ∧ r.completed = false
      · rw [if_pos hlocal] at hstep
        cases hstep
        obtain ⟨hs, hset⟩ := requests_split hr
          { r with completed := true, unpacked := true }
        rw [hset]
        have hkeep : ∀ comm, s.mailbox.contents comm = s.mailbox.contents comm := fun _ => rfl
        exact inv_kept h hs rfl rfl (Or.inr ⟨hlocal.2, hlocal.1, rfl⟩) hkeep
      · rw [if_neg hlocal] at hstep
        cases hstep

theorem inv_of_orderly (h : Orderly pk s) : Inv s := by
  induction h with
  | start known => exact inv_start known
  | step _ hturn hstep ih => exact inv_step ih hturn hstep

/-- **Posted order.**  In every state of a run in which no poll overtakes, the
requests with one communicator, source and tag complete in the order in which
they were posted, with the messages in the order in which they were sent. -/
theorem inPostedOrder_of_orderly (h : Orderly pk s) {pat : Pattern}
    (hpat : pat.source ≠ empiAnySource) : s.InPostedOrder pat :=
  (inv_of_orderly h).inPostedOrder hpat

/-- A run that goes through. -/
def run (pk : Packing α) (s : Receiver α) (events : List (ReceiveEvent α)) :
    Option (Receiver α) :=
  events.foldlM (step pk) s

theorem notMem_of_posted {before after : List (Option Arrival)} {a : Arrival} {l : List Arrival}
    {n : Nat} (h : before ++ some a :: after = l.map some ++ List.replicate n none) :
    none ∉ before := by
  induction before generalizing l with
  | nil => simp
  | cons x before ih =>
      cases l with
      | nil =>
          have hmem : some a ∈ List.replicate n none := by
            rw [List.map_nil, List.nil_append] at h
            exact h ▸ List.mem_append_right _ List.mem_cons_self
          cases List.eq_of_mem_replicate hmem
      | cons b l =>
          obtain ⟨rfl, htail⟩ := List.cons.inj h
          simpa using ih htail

/-- Once a request has overtaken one of its kind, the order is lost. -/
theorem not_inPostedOrder_of_overtaken {pat : Pattern} {before after : List (Option Arrival)}
    {a : Arrival} (h : s.posted pat = before ++ some a :: after) (hnone : none ∈ before) :
    ¬ s.InPostedOrder pat := by
  rintro ⟨l, n, _, hposted⟩
  exact notMem_of_posted (h ▸ hposted) hnone

/-- Two receives for what rank 1 sends with tag 5, and two such messages. -/
def twoPosted : List (ReceiveEvent UInt8) :=
  [.irecv [0] 1 0 1 5 (worldCommunicator [1, 1] 0 0),
    .irecv [0] 1 0 1 5 (worldCommunicator [1, 1] 0 0),
    .arrive (createDataMessage (setPid 1 0) opcodeData (setPid 0 0) 0 1 0 5 1 [7]),
    .arrive (createDataMessage (setPid 1 0) opcodeData (setPid 0 0) 0 1 0 5 1 [8])]

theorem inPostedOrder_firstFirst :
    ∃ s, run bytePacking (start fun h => h == 0) (twoPosted ++ [.test 0, .test 1]) = some s ∧
      s.InPostedOrder ⟨0, 1, 5⟩ := by
  have hnothing : ¬ (start fun h => h == 0 : Receiver UInt8).mailbox.Offers ⟨0, 1, 5⟩ false := by
    simp [start, Mailbox.Offers]
  have hstart : Orderly bytePacking (start fun h => h == 0) := .start _
  have hposted := (hstart.step (e := .irecv [0] 1 0 1 5 (worldCommunicator [1, 1] 0 0))
    (fun _ hoffers => absurd hoffers hnothing) rfl).step
      (e := .irecv [0] 1 0 1 5 (worldCommunicator [1, 1] 0 0))
      (fun _ hoffers => absurd hoffers hnothing) rfl
  have harrived := (hposted.step (e := .arrive (createDataMessage (setPid 1 0) opcodeData
    (setPid 0 0) 0 1 0 5 1 [7])) trivial rfl).step (e := .arrive (createDataMessage (setPid 1 0)
      opcodeData (setPid 0 0) 0 1 0 5 1 [8])) trivial rfl
  have hfirst := harrived.step (e := .test 0) (fun _ _ _ _ _ r hr => absurd hr (by simp)) rfl
  have hsecond := hfirst.step (e := .test 1)
    (fun _ _ _ _ _ => done_of_all rfl) rfl
  exact ⟨_, rfl, inPostedOrder_of_orderly hsecond (by decide)⟩

/-- The request posted second is polled first and gets the message that was sent
first. -/
theorem not_inPostedOrder_secondFirst :
    ∃ s, run bytePacking (start fun h => h == 0) (twoPosted ++ [.test 1]) = some s ∧
      ¬ s.InPostedOrder ⟨0, 1, 5⟩ := by
  refine ⟨_, rfl, ?_⟩
  have hposted : ∀ s : Receiver UInt8,
      run bytePacking (start fun h => h == 0) (twoPosted ++ [.test 1]) = some s →
        s.posted ⟨0, 1, 5⟩ = [none] ++ some ⟨0, createDataMessage (setPid 1 0) opcodeData
          (setPid 0 0) 0 1 0 5 1 [7]⟩ :: [] := by
    intro s hs
    cases hs
    rfl
  exact not_inPostedOrder_of_overtaken (hposted _ rfl) (List.mem_singleton_self none)

end Receiver

end EsalsaMpi
