import EsalsaMpi.Backend.Member.Session

/-!
# Runs of a session

Whatever the members see can happen: a session can take every step of the network
that its members see (`Session.exists_run_of_step`).  So if the calls of a row
perform blocks of messages, every run can be completed, and each member notes the
results of the calls, one after the other (`Session.completes`).
-/

namespace EsalsaMpi

open ProcessNetwork MatchQueue Relation

namespace Session

variable {α β : Type} {members : List Pid} {n r : Nat} {s s' : Session α β}
  {ready : Session α β → Lane → Prop}

/-! ### The invariant -/

theorem Inv.advance (h : s.Inv members n) {p : Progress α β}
    (htodo : ∀ x ∈ p.todo, Polite members n r x) (hnow : ∀ x, p.now = some x → Polite members n r x) :
    (s.advance r p).Inv members n where
  todo i := by
    by_cases hi : i = r
    · subst hi
      simpa using htodo
    · simpa [hi] using h.todo i
  now i := by
    by_cases hi : i = r
    · subst hi
      simpa using hnow
    · simpa [hi] using h.now i
  gateways := h.gateways
  known := h.known
  incoming := h.incoming

theorem Inv.goOn (h : s.Inv members n) {x : Caller α β} (hx : Polite members n r x) :
    (s.goOn r x).Inv members n := by
  refine h.advance (p := { s.member r with now := some x }) (h.todo r) ?_
  intro y hy
  cases hy
  exact hx

theorem Inv.setLibrary (h : s.Inv members n) (lane : Lane) (l : List (Packet α)) :
    (s.setLibrary lane l).Inv members n :=
  ⟨h.todo, h.now, h.gateways, h.known, h.incoming⟩

theorem Inv.setGateways (h : s.Inv members n) {q : Nat} {l : List DataMessage}
    (hl : ∀ m ∈ l, r < members.length ∧ m.comm = n ∧ m.source = q) :
    (s.setGateways q r l).Inv members n where
  todo := h.todo
  now := h.now
  gateways q' i m hm := by
    by_cases hq : q' = q
    · subst hq
      by_cases hi : i = r
      · subst hi
        simp only [Session.setGateways, Function.update_self] at hm
        exact hl m hm
      · simp only [Session.setGateways, Function.update_self, Function.update_of_ne hi] at hm
        exact h.gateways q' i m hm
    · simp only [Session.setGateways, Function.update_of_ne hq] at hm
      exact h.gateways q' i m hm
  known := h.known
  incoming := h.incoming

theorem Inv.setMailbox (h : s.Inv members n) {mb : Mailbox}
    (hqueue : ∀ comm, (mb.queue comm).isSome = ((s.mailbox r).queue comm).isSome)
    (hincoming : ∀ a ∈ mb.incoming, (mb.queue a.message.comm).isSome) :
    (s.setMailbox r mb).Inv members n where
  todo := h.todo
  now := h.now
  gateways := h.gateways
  known i hi := by
    by_cases hir : i = r
    · subst hir
      simp only [Session.setMailbox, Function.update_self]
      rw [hqueue]
      exact h.known i hi
    · simpa [Session.setMailbox, hir] using h.known i hi
  incoming i := by
    by_cases hir : i = r
    · subst hir
      simpa [Session.setMailbox] using hincoming
    · simpa [Session.setMailbox, hir] using h.incoming i

/-- A search of a mailbox keeps the invariant. -/
theorem Inv.searched (h : s.Inv members n) {mb : Mailbox} (hmb : (s.mailbox r).Searched mb) :
    (s.setMailbox r mb).Inv members n := by
  refine h.setMailbox hmb.queue ?_
  intro a ha
  rw [hmb.queue]
  exact h.incoming r a (hmb.incoming ha)

theorem Inv.arrive (h : s.Inv members n) {a : Arrival}
    (hknown : ((s.mailbox r).queue a.message.comm).isSome) :
    (s.setMailbox r ((s.mailbox r).arrive a)).Inv members n := by
  refine h.setMailbox (fun _ => rfl) ?_
  intro b hb
  rcases List.mem_append.mp hb with hb | hb
  · exact h.incoming r b hb
  · rw [List.mem_singleton.mp hb]
    exact hknown

/-- **One step** keeps the parts together. -/
theorem inv_step (hnodup : members.Nodup) (h : s.Inv members n) (hstep : Step members n ready s s') :
    s'.Inv members n := by
  cases hstep with
  | @begin r x rest hnow htodo =>
      have hpolite := h.todo r
      rw [htodo] at hpolite
      refine h.advance (fun y hy => hpolite y (List.mem_cons_of_mem x hy)) ?_
      intro y hy
      cases hy
      exact hpolite x List.mem_cons_self
  | @«return» r b hnow => exact h.advance (h.todo r) nofun
  | send hnow _ => exact (h.goOn (h.addressed hnow).2).setLibrary _ _
  | receive hnow hlane hqueue => exact (h.goOn ((h.expected hnow).2 _)).setLibrary _ _
  | @post r d lane m next hnow _ hdest =>
      obtain ⟨tag, _, _, _, _, hcomm, hsource, _⟩ := h.posted hnodup hnow hdest
      have hlt := (List.getElem?_eq_some_iff.mp hdest).1
      refine (h.goOn (h.addressed hnow).2).setGateways ?_
      intro m' hm'
      rcases List.mem_append.mp hm' with hm' | hm'
      · exact h.gateways r d m' hm'
      · rw [List.mem_singleton.mp hm']
        exact ⟨hlt, hcomm, hsource⟩
  | take hnow _ hpoll =>
      exact (h.goOn ((h.expected hnow).2 _)).searched (Mailbox.searched_poll (Or.inl ⟨_, hpoll⟩))
  | wait _ _ hpoll => exact h.searched (Mailbox.searched_poll (Or.inr hpoll))
  | @deliver q r seq m rest hgateways =>
      have hm := h.gateways q r
      rw [hgateways] at hm
      obtain ⟨hlt, hcomm, _⟩ := hm m List.mem_cons_self
      have hrest : (s.setGateways q r rest).Inv members n :=
        h.setGateways fun m' hm' => hm m' (List.mem_cons_of_mem m hm')
      refine hrest.arrive (a := ⟨seq, m⟩) ?_
      show ((s.mailbox r).queue m.comm).isSome
      rw [hcomm]
      exact h.known r hlt
  | other _ hknown => exact h.arrive hknown

theorem inv_of_run (hnodup : members.Nodup) (h : s.Inv members n)
    (hrun : ReflTransGen (Step members n ready) s s') : s'.Inv members n := by
  induction hrun with
  | refl => exact h
  | tail _ hstep ih => exact inv_step hnodup ih hstep

/-- **What the members see** in a run is a run of the network. -/
theorem view_run (hnodup : members.Nodup) (h : s.Inv members n)
    (hrun : ReflTransGen (Step members n ready) s s') :
    ReflTransGen ProcessNetwork.Step (s.view n) (s'.view n) := by
  induction hrun with
  | refl => exact .refl
  | tail hrun hstep ih =>
      rcases view_step hnodup (inv_of_run hnodup h hrun) hstep with heq | hstep
      · rwa [heq]
      · exact ih.tail hstep

/-! ### What the members see can happen -/

end Session

/-- A member that has no call left, or is in one and not at its end. -/
def Progress.Settled {α β : Type} (p : Progress α β) : Prop :=
  (p.now = none ∧ p.todo = []) ∨ ∃ x, p.now = some x ∧ ∀ b, x ≠ .done b

namespace Progress.Settled

variable {α β : Type} {p : Progress α β} {lane : Lane}

theorem of_done {noted : List β} (h : p.Settled) (hleft : p.left = .done noted) :
    p = ⟨[], none, noted⟩ := by
  obtain ⟨todo, now, noted'⟩ := p
  rcases h with ⟨rfl, rfl⟩ | ⟨x, rfl, hx⟩
  · cases hleft
    rfl
  · cases x with
    | done b => exact absurd rfl (hx b)
    | send lane m next => cases hleft
    | recv lane next => cases hleft
    | fail => cases hleft

theorem of_send {m : Packet α} {next : Caller α (List β)} (h : p.Settled)
    (hleft : p.left = .send lane m next) : ∃ next', p.now = some (.send lane m next') := by
  obtain ⟨todo, now, noted'⟩ := p
  rcases h with ⟨rfl, rfl⟩ | ⟨x, rfl, hx⟩
  · cases hleft
  · cases x with
    | done b => exact absurd rfl (hx b)
    | send lane' m' next' =>
        cases hleft
        exact ⟨next', rfl⟩
    | recv lane next => cases hleft
    | fail => cases hleft

theorem of_recv {next : Packet α → Caller α (List β)} (h : p.Settled)
    (hleft : p.left = .recv lane next) : ∃ next', p.now = some (.recv lane next') := by
  obtain ⟨todo, now, noted'⟩ := p
  rcases h with ⟨rfl, rfl⟩ | ⟨x, rfl, hx⟩
  · cases hleft
  · cases x with
    | done b => exact absurd rfl (hx b)
    | send lane' m' next' => cases hleft
    | recv lane' next' =>
        cases hleft
        exact ⟨next', rfl⟩
    | fail => cases hleft

end Progress.Settled

namespace Session

variable {α β : Type} {members : List Pid} {n r : Nat} {s s' : Session α β}
  {ready : Session α β → Lane → Prop}

/-- A run that the members do not see, in which those outside `ranks` do nothing. -/
structure Unseen (members : List Pid) (n : Nat) (ready : Session α β → Lane → Prop)
    (ranks : List Nat) (s s' : Session α β) : Prop where
  run : ReflTransGen (Step members n ready) s s'
  view : s'.view n = s.view n
  others : ∀ i ∉ ranks, s'.member i = s.member i

namespace Unseen

variable {ranks ranks' : List Nat} {s'' : Session α β}

theorem refl (s : Session α β) : Unseen members n ready ranks s s := ⟨.refl, rfl, fun _ _ => rfl⟩

theorem trans (h : Unseen members n ready ranks s s') (h' : Unseen members n ready ranks' s' s'') :
    Unseen members n ready (ranks ++ ranks') s s'' where
  run := h.run.trans h'.run
  view := h'.view.trans h.view
  others i hi := by
    rw [List.mem_append, not_or] at hi
    rw [h'.others i hi.2, h.others i hi.1]

/-- A member goes further, and then others do. -/
theorem head {p : Progress α β} (hstep : Step members n ready s (s.advance r p))
    (hview : (s.advance r p).view n = s.view n) (h : Unseen members n ready [r] (s.advance r p) s') :
    Unseen members n ready [r] s s' where
  run := .head hstep h.run
  view := h.view.trans hview
  others i hi := by
    rw [h.others i hi, advance_member_ne (List.ne_of_not_mem_cons hi)]

end Unseen

variable (members n ready) in
/-- **A member goes on** in its row until it is in a call and not at its end. -/
theorem exists_settled (r : Nat) (s : Session α β) :
    ∃ s', Unseen members n ready [r] s s' ∧ (s'.member r).Settled := by
  induction hk : 2 * (s.member r).todo.length + (s.member r).now.toList.length using
    Nat.strong_induction_on generalizing s with
  | _ k ih =>
      have hcall : ∀ x, (s.member r).now = some x → (∀ b, x ≠ .done b) →
          ∃ s', Unseen members n ready [r] s s' ∧ (s'.member r).Settled :=
        fun x hnow hx => ⟨s, .refl s, Or.inr ⟨x, hnow, hx⟩⟩
      cases hnow : (s.member r).now with
      | none =>
          cases htodo : (s.member r).todo with
          | nil => exact ⟨s, .refl s, Or.inl ⟨hnow, htodo⟩⟩
          | cons x rest =>
              obtain ⟨s', hunseen, hsettled⟩ :=
                ih _ (by
                  rw [← hk, advance_member_self, hnow, htodo]
                  show 2 * rest.length + 1 < 2 * (rest.length + 1) + 0
                  omega) (s.advance r { s.member r with todo := rest, now := some x }) rfl
              exact ⟨s', .head (.begin hnow htodo) (view_begin hnow htodo) hunseen, hsettled⟩
      | some x =>
          cases x with
          | done b =>
              obtain ⟨s', hunseen, hsettled⟩ :=
                ih _ (by
                  rw [← hk, advance_member_self, hnow]
                  exact Nat.lt_succ_self _)
                  (s.advance r { s.member r with
                    now := none, noted := (s.member r).noted ++ [b] }) rfl
              exact ⟨s', .head (.return hnow) (view_return hnow) hunseen, hsettled⟩
          | send lane m next => exact hcall _ hnow nofun
          | recv lane next => exact hcall _ hnow nofun
          | fail => exact hcall _ hnow nofun

variable (ready) in
/-- The gateways deliver all messages from one rank to another. -/
theorem exists_delivered (hnodup : members.Nodup) (h : s.Inv members n) (q r : Nat) :
    ∃ s', Unseen members n ready [] s s' ∧ s'.gateways q r = [] := by
  induction hl : s.gateways q r generalizing s with
  | nil => exact ⟨s, .refl s, hl⟩
  | cons m rest ih =>
      have hstep : Step members n ready s ((s.setGateways q r rest).setMailbox r
          ((s.mailbox r).arrive ⟨0, m⟩)) := .deliver hl
      obtain ⟨_, hcomm, hsource⟩ := h.gateways q r m (by rw [hl]; exact List.mem_cons_self)
      obtain ⟨s', hunseen, hempty⟩ := ih (inv_step hnodup h hstep) (by
        simp [setMailbox, setGateways])
      exact ⟨s', ⟨.head hstep hunseen.run, hunseen.view.trans (view_deliver hl hcomm hsource),
        hunseen.others⟩, hempty⟩

variable (ready) in
/-- **What is first on a lane can be received.** -/
theorem exists_run_of_recv (hnodup : members.Nodup) (h : s.Inv members n) {p : Nat} {lane : Lane}
    {x : Caller α (List β)} {l : List (Packet α)} (huse : Use (s.view n) false p lane x l) :
    ∃ s', ReflTransGen (Step members n ready) s s' ∧ s'.view n = (s.view n).put p x lane l := by
  obtain ⟨s₁, hunseen₁, hsettled⟩ := exists_settled members n ready p s
  have h₁ := inv_of_run hnodup h hunseen₁.run
  rw [← hunseen₁.view] at huse ⊢
  cases huse with
  | @recv _ _ m rest next hp hqueue =>
      have huse := Use.recv hp hqueue
      obtain ⟨next', hnow⟩ := hsettled.of_recv hp
      obtain ⟨⟨rfl, hexpected⟩, _⟩ := h₁.expected hnow
      cases hlane : lane.carrier.wideTag with
      | none =>
          have hlibrary := (view_queue_library hlane).symm.trans hqueue
          obtain ⟨x, l, huse', hview⟩ := view_receive (n := n) hnow hlane hlibrary
          obtain ⟨_, _, rfl, rfl⟩ := huse.unique huse'
          exact ⟨_, hunseen₁.run.tail (.receive hnow hlane hlibrary), hview⟩
      | some tag =>
          have htag := hexpected tag hlane
          obtain ⟨s₂, hunseen₂, hempty⟩ := exists_delivered ready hnodup h₁ lane.source lane.dest
          have h₂ := inv_of_run hnodup h₁ hunseen₂.run
          rw [← hunseen₂.others _ List.not_mem_nil] at hnow
          rw [← hunseen₂.view] at huse hqueue ⊢
          have hfirst := hqueue
          rw [view_queue_wide hlane htag, hempty] at hfirst
          -- the message is in the mailbox now, so the search finds it
          obtain ⟨a, mb, hpoll⟩ : ∃ a mb,
              (s₂.mailbox lane.dest).poll ⟨n, lane.source, tag⟩ true = .found a mb := by
            apply Mailbox.poll_finds (h₂.incoming lane.dest)
            have hmem : m ∈ wideQueue n lane.source tag (s₂.mailbox lane.dest) [] := by
              rw [hfirst]
              exact List.mem_cons_self
            obtain ⟨m', hm', _⟩ := List.mem_map.mp hmem
            obtain ⟨hm', hmatch⟩ := List.mem_filter.mp hm'
            rw [List.append_nil] at hm'
            obtain ⟨a, ha, rfl⟩ := List.mem_map.mp hm'
            exact ⟨a, ha, hmatch⟩
          obtain ⟨x, l, huse', hview⟩ := view_found h₂ hnow hlane hpoll
          obtain ⟨_, _, rfl, rfl⟩ := huse.unique huse'
          exact ⟨_, (hunseen₁.run.trans hunseen₂.run).tail (.take hnow hlane hpoll), hview⟩

/-- **A send whose lane is ready can complete.** -/
theorem exists_step_of_send (hnodup : members.Nodup) (h : s.Inv members n) {p : Nat} {lane : Lane}
    {m : Packet α} {next : Caller α β} {x : Caller α (List β)} {l : List (Packet α)}
    (hnow : (s.member p).now = some (.send lane m next)) (hready : ready s lane)
    (huse : Use (s.view n) true p lane x l) :
    ∃ s', Step members n ready s s' ∧ s'.view n = (s.view n).put p x lane l := by
  cases m with
  | elements xs =>
      obtain ⟨x', l', huse', hview⟩ := view_send h hnow
      obtain ⟨_, _, rfl, rfl⟩ := huse.unique huse'
      exact ⟨_, .send hnow hready, hview⟩
  | wideArea m =>
      have hdest : members[lane.dest]? = some m.dstPid := by
        obtain ⟨_, hmay⟩ := (h.addressed hnow).1
        cases hlane : lane.carrier.wideTag with
        | none =>
            rw [hlane] at hmay
            cases hmay
        | some tag =>
            rw [hlane] at hmay
            exact hmay.2.2.2.2
      obtain ⟨x', l', huse', hview⟩ := view_sendWide hnodup h hnow hdest
      obtain ⟨_, _, rfl, rfl⟩ := huse.unique huse'
      exact ⟨_, .post hnow hready hdest, hview⟩

/-- **Where sends do not wait**, a session can take every step that the members see. -/
theorem exists_run_of_step (hnodup : members.Nodup) (h : s.Inv members n)
    {u : ProcessNetwork.Network Nat Lane (Packet α) (List β)}
    (hstep : ProcessNetwork.Step (s.view n) u) :
    ∃ s', ReflTransGen (Step members n Eager) s s' ∧ s'.view n = u := by
  obtain ⟨k, p, lane, x, l, huse, rfl⟩ := step_iff.mp hstep
  cases k with
  | false => exact exists_run_of_recv _ hnodup h huse
  | true =>
      obtain ⟨s₁, hunseen, hsettled⟩ := exists_settled members n Eager p s
      have h₁ := inv_of_run hnodup h hunseen.run
      rw [← hunseen.view] at huse ⊢
      cases huse with
      | send hp =>
          obtain ⟨next', hnow⟩ := hsettled.of_send hp
          obtain ⟨s', hsend, hview⟩ := exists_step_of_send hnodup h₁ hnow
            (show Eager s₁ lane from trivial)
            (.send hp)
          exact ⟨s', hunseen.run.tail hsend, hview⟩

/-- **Where sends wait for their receives** at most, a session can hand over every message
that the members can. -/
theorem exists_run_of_meeting (hprompt : Prompt ready) (hnodup : members.Nodup) (h : s.Inv members n)
    {u : ProcessNetwork.Network Nat Lane (Packet α) (List β)}
    (hmeet : Meeting (s.view n) u) :
    ∃ s', ReflTransGen (Step members n ready) s s' ∧ s'.view n = u := by
  cases hmeet with
  | recv huse => exact exists_run_of_recv _ hnodup h huse
  | @meet p q lane m next next' hp hq hqueue =>
      have hne : q ≠ p := by
        rintro rfl
        cases hp.symm.trans hq
      obtain ⟨s₁, hunseen₁, hsettled₁⟩ := exists_settled members n ready q s
      obtain ⟨s₂, hunseen₂, hsettled₂⟩ := exists_settled members n ready p s₁
      have hunseen := hunseen₁.trans hunseen₂
      have h₂ := inv_of_run hnodup h hunseen.run
      rw [← hunseen.view] at hp hq hqueue ⊢
      obtain ⟨nextSend, hnow⟩ := hsettled₂.of_send hp
      obtain ⟨nextRecv, hwaits⟩ : ∃ y, (s₂.member q).now = some (.recv lane y) := by
        have hsame := hunseen₂.others q (by simpa using hne)
        rw [hsame]
        refine hsettled₁.of_recv (show (s₁.member q).left = .recv lane next' from ?_)
        rw [← hsame]
        exact hq
      have hdest : lane.dest = q := (h₂.expected hwaits).1.1
      have hsend : Use (s₂.view n) true p lane next [m] := by
        have huse := Use.send hp
        rwa [hqueue] at huse
      obtain ⟨s₃, hstep, hview₃⟩ := exists_step_of_send hnodup h₂ hnow
        (hprompt s₂ lane ⟨nextRecv, by rw [hdest]; exact hwaits⟩) hsend
      have hrecv : Use (s₃.view n) false q lane (next' m) [] := by
        rw [hview₃]
        exact .recv (by rw [put_procs_ne hne, hq]) put_queue_self
      obtain ⟨s₄, hrun, hview₄⟩ := exists_run_of_recv ready hnodup
        (inv_step hnodup h₂ hstep) hrecv
      refine ⟨s₄, (hunseen.run.tail hstep).trans hrun, ?_⟩
      rw [hview₄, hview₃]

/-- A run that the members see is one of the session, if its steps are. -/
theorem exists_run_of_run (hnodup : members.Nodup)
    {r : ProcessNetwork.Network Nat Lane (Packet α) (List β) →
      ProcessNetwork.Network Nat Lane (Packet α) (List β) → Prop}
    (hstep : ∀ {s : Session α β} {u}, s.Inv members n → r (s.view n) u →
      ∃ s', ReflTransGen (Step members n ready) s s' ∧ s'.view n = u)
    (h : s.Inv members n) {u : ProcessNetwork.Network Nat Lane (Packet α) (List β)}
    (hrun : ReflTransGen r (s.view n) u) :
    ∃ s', ReflTransGen (Step members n ready) s s' ∧ s'.view n = u := by
  induction hrun with
  | refl => exact ⟨s, .refl, rfl⟩
  | tail _ hlast ih =>
      obtain ⟨s₁, hrun₁, rfl⟩ := ih
      obtain ⟨s₂, hrun₂, hview⟩ := hstep (inv_of_run hnodup h hrun₁) hlast
      exact ⟨s₂, hrun₁.trans hrun₂, hview⟩

variable (members n ready) in
/-- All members go on until they are in a call and not at its end. -/
theorem exists_all_settled (k : Nat) (s : Session α β) :
    ∃ s', Unseen members n ready (List.range k) s s' ∧ ∀ r < k, (s'.member r).Settled := by
  induction k with
  | zero => exact ⟨s, .refl s, fun r hr => absurd hr (Nat.not_lt_zero r)⟩
  | succ k ih =>
      obtain ⟨s₁, hunseen₁, hsettled₁⟩ := ih
      obtain ⟨s₂, hunseen₂, hsettled₂⟩ := exists_settled members n ready k s₁
      refine ⟨s₂, ?_, ?_⟩
      · rw [List.range_succ]
        exact hunseen₁.trans hunseen₂
      · intro r hr
        by_cases hrk : r = k
        · subst hrk
          exact hsettled₂
        · rw [hunseen₂.others r (by simpa using hrk)]
          exact hsettled₁ r (by omega)

/-- What a member has noted stays. -/
theorem noted_prefix_of_run (hrun : ReflTransGen (Step members n ready) s s') (r : Nat) :
    (s.member r).noted <+: (s'.member r).noted := by
  have hadvance : ∀ {t : Session α β} {i : Nat} {p : Progress α β},
      (t.member i).noted <+: p.noted → (t.member r).noted <+: ((t.advance i p).member r).noted := by
    intro t i p hp
    by_cases hi : r = i
    · subst hi
      rwa [advance_member_self]
    · rw [advance_member_ne hi]
  induction hrun with
  | refl => exact List.prefix_refl _
  | @tail t u _ hstep ih =>
      refine ih.trans ?_
      cases hstep with
      | begin _ _ => exact hadvance (List.prefix_refl _)
      | «return» _ => exact hadvance (List.prefix_append _ _)
      | send _ _ => exact hadvance (p := { t.member _ with now := some _ }) (List.prefix_refl _)
      | receive _ _ _ => exact hadvance (p := { t.member _ with now := some _ }) (List.prefix_refl _)
      | post _ _ _ => exact hadvance (p := { t.member _ with now := some _ }) (List.prefix_refl _)
      | take _ _ _ => exact hadvance (p := { t.member _ with now := some _ }) (List.prefix_refl _)
      | wait _ _ _ => exact List.prefix_refl _
      | deliver _ => exact List.prefix_refl _
      | other _ _ => exact List.prefix_refl _

/-! ### Rows that are performed -/

/-- **Every run delivers** the results: what each member has noted is a beginning of
its own, and the run can go on until all members have returned from all calls. -/
def Delivers (members : List Pid) (n : Nat) (ready : Session α β → Lane → Prop)
    (s₀ : Session α β) (result : Nat → List β) : Prop :=
  ∀ s, ReflTransGen (Step members n ready) s₀ s →
    (∀ r < members.length, (s.member r).noted <+: result r) ∧
      ∃ t, ReflTransGen (Step members n ready) s t ∧
        ∀ r < members.length, t.member r = ⟨[], none, result r⟩

/-- It is enough that all runs that the members see lead to one end. -/
theorem delivers_of_end (hnodup : members.Nodup)
    {r : ProcessNetwork.Network Nat Lane (Packet α) (List β) →
      ProcessNetwork.Network Nat Lane (Packet α) (List β) → Prop}
    (hstep : ∀ {s : Session α β} {u}, s.Inv members n → r (s.view n) u →
      ∃ s', ReflTransGen (Step members n ready) s s' ∧ s'.view n = u)
    (h : s.Inv members n) {result : Nat → List β}
    {u : ProcessNetwork.Network Nat Lane (Packet α) (List β)}
    (hdone : ∀ i < members.length, u.procs i = .done (result i))
    (hend : ∀ v, ReflTransGen ProcessNetwork.Step (s.view n) v → ReflTransGen r v u) :
    Delivers members n ready s result := by
  intro s₁ hrun₁
  have h₁ := inv_of_run hnodup h hrun₁
  obtain ⟨s₂, hrun₂, hview⟩ :=
    exists_run_of_run hnodup hstep h₁ (hend _ (view_run hnodup h hrun₁))
  obtain ⟨t, hunseen, hsettled⟩ := exists_all_settled members n ready members.length s₂
  have hfinished : ∀ i < members.length, t.member i = ⟨[], none, result i⟩ := by
    intro i hi
    refine (hsettled i hi).of_done ?_
    have hi' : (t.view n).procs i = .done (result i) := by
      rw [hunseen.view, hview, hdone i hi]
    exact hi'
  have hrun := hrun₂.trans hunseen.run
  refine ⟨?_, t, hrun, hfinished⟩
  intro i hi
  have hprefix := noted_prefix_of_run hrun i
  rwa [hfinished i hi] at hprefix

/-- There are not two results that a session delivers. -/
theorem Delivers.unique {s₀ : Session α β} {result result' : Nat → List β}
    (h : Delivers members n ready s₀ result) (h' : Delivers members n ready s₀ result') {r : Nat}
    (hr : r < members.length) (hlength : (result r).length = (result' r).length) :
    result r = result' r := by
  obtain ⟨_, t, hrun, hend⟩ := h s₀ .refl
  have hprefix := (h' t hrun).1 r hr
  rw [hend r hr] at hprefix
  exact hprefix.eq_of_length hlength

/-- Calls of which every member does its part: it keeps to its lanes, and all members
together perform blocks of messages that satisfy `Q`. -/
structure Performed (members : List Pid) (n : Nat) (Q : List (Lane × Packet α) → Prop)
    (run : Nat → Caller α β) (result : Nat → β) : Prop where
  polite : ∀ r, Polite members n r (run r)
  blocks : ∃ blocks, (∀ b ∈ blocks, Q b) ∧
    Performs Lane.source Lane.dest {r | r < members.length} run blocks result
  outside : ∀ r, members.length ≤ r → run r = .fail

/-- Only the results of the members matter. -/
theorem Performed.congr {Q : List (Lane × Packet α) → Prop} {run : Nat → Caller α β}
    {result result' : Nat → β} (h : Performed members n Q run result)
    (heq : ∀ r < members.length, result r = result' r) :
    Performed members n Q run result' where
  polite := h.polite
  blocks := by
    obtain ⟨blocks, hQ, hperforms⟩ := h.blocks
    exact ⟨blocks, hQ, fun r hr => heq r hr ▸ hperforms.follows r hr, hperforms.inside⟩
  outside := h.outside

section Rows

variable {κ : Type} {Q : List (Lane × Packet α) → Prop} {run : κ → Nat → Caller α β}
  {result : κ → Nat → β} {calls : List κ} {known : Nat → Nat → Bool}

theorem view_start (calls : List (Nat → Caller α β)) (known : Nat → Nat → Bool) :
    (Session.start calls known).view n =
      ProcessNetwork.start fun r => runCalls (calls.map fun call => call r) [] := by
  unfold view ProcessNetwork.start
  congr 1
  funext lane
  cases hlane : lane.carrier.wideTag with
  | none => rfl
  | some tag =>
      have hempty : ∀ r, ((Session.start calls known).mailbox r).contents n = [] := by
        intro r
        by_cases hk : known r n = true <;> simp [Session.start, Mailbox.contents, hk]
      simp only [wideQueue, hempty]
      exact ite_self _

theorem inv_start (hpolite : ∀ k ∈ calls, ∀ r, Polite members n r (run k r))
    (hknown : ∀ r < members.length, known r n = true) :
    (Session.start (calls.map run) known).Inv members n where
  todo r x hx := by
    obtain ⟨call, hcall, rfl⟩ := List.mem_map.mp hx
    obtain ⟨k, hk, rfl⟩ := List.mem_map.mp hcall
    exact hpolite k hk r
  now r x hx := by cases hx
  gateways q r m hm := by cases hm
  known r hr := by simp [Session.start, hknown r hr]
  incoming r a ha := by cases ha

theorem owned_start (hpolite : ∀ k ∈ calls, ∀ r, Polite members n r (run k r)) :
    Owned Lane.source Lane.dest (ProcessNetwork.start fun r =>
      runCalls ((calls.map run).map fun call => call r) ([] : List β)) := by
  intro r
  have hrow : Polite members n r (runCalls ((calls.map run).map fun call => call r) []) := by
    apply polite_runCalls
    intro x hx
    obtain ⟨call, hcall, rfl⟩ := List.mem_map.mp hx
    obtain ⟨k, hk, rfl⟩ := List.mem_map.mp hcall
    exact hpolite k hk r
  exact hrow.imp (fun lane m h => h.1) fun lane h => h.1

/-- The members perform the calls one after the other. -/
theorem performs_runCalls (h : ∀ k ∈ calls, Performed members n Q (run k) (result k))
    (noted : Nat → List β) :
    ∃ blocks, (∀ b ∈ blocks, Q b) ∧ Performs Lane.source Lane.dest {r | r < members.length}
      (fun r => runCalls ((calls.map run).map fun call => call r) (noted r)) blocks
      fun r => noted r ++ calls.map fun k => result k r := by
  induction calls generalizing noted with
  | nil =>
      refine ⟨[], nofun, ⟨fun r _ => ?_, nofun⟩⟩
      simp only [List.map_nil, List.append_nil]
      exact .done (noted r)
  | cons k calls ih =>
      obtain ⟨blocks, hblocks, hperforms⟩ := (h k List.mem_cons_self).blocks
      obtain ⟨blocks', hblocks', hperforms'⟩ :=
        ih (fun k' hk' => h k' (List.mem_cons_of_mem k hk')) fun r => noted r ++ [result k r]
      refine ⟨blocks ++ blocks', ?_, ?_⟩
      · intro b hb
        rcases List.mem_append.mp hb with hb | hb
        · exact hblocks b hb
        · exact hblocks' b hb
      · have hresult : (fun r => noted r ++ (k :: calls).map fun k' => result k' r) =
            fun r => (noted r ++ [result k r]) ++ calls.map fun k' => result k' r := by
          funext r
          rw [List.map_cons, List.append_assoc, List.singleton_append]
        rw [hresult]
        exact hperforms.bind (f := fun r b =>
          runCalls ((calls.map run).map fun call => call r) (noted r ++ [b])) hperforms'

theorem stopped_start (h : ∀ k ∈ calls, ∀ r, members.length ≤ r → run k r = .fail)
    {r : Nat} (hr : members.length ≤ r) :
    (runCalls ((calls.map run).map fun call => call r) ([] : List β)).Stopped := by
  cases calls with
  | nil => trivial
  | cons k calls =>
      rw [List.map_cons, List.map_cons, h k List.mem_cons_self r hr]
      trivial

theorem doomed_runCalls {todo : List (Caller α β)} {x : Caller α β} (hx : x ∈ todo)
    (h : Doomed x) (noted : List β) : Doomed (runCalls todo noted) := by
  induction todo generalizing noted with
  | nil => cases hx
  | cons y todo ih =>
      rcases List.mem_cons.mp hx with rfl | hx
      · exact h.bind _
      · exact Doomed.of_bind y fun b => ih hx (noted ++ [b])

/-- **A row does not deliver** if a member is never done in one of the calls. -/
theorem not_delivers (hnodup : members.Nodup) (hknown : ∀ r < members.length, known r n = true)
    (hpolite : ∀ k ∈ calls, ∀ r, Polite members n r (run k r)) {k : κ} (hk : k ∈ calls) {r : Nat}
    (hr : r < members.length) (hdoomed : Doomed (run k r)) (result : Nat → List β) :
    ¬ Delivers members n ready (start (calls.map run) known) result := by
  intro h
  obtain ⟨_, t, hrun, hend⟩ := h _ .refl
  have hsteps := view_run hnodup (inv_start hpolite hknown) hrun
  rw [view_start] at hsteps
  have hmem : run k r ∈ (calls.map run).map fun call => call r :=
    List.mem_map_of_mem (List.mem_map_of_mem hk)
  have hleft : Doomed ((t.view n).procs r) :=
    Doomed.of_steps hsteps (doomed_runCalls hmem hdoomed [])
  change Doomed (t.member r).left at hleft
  rw [hend r hr] at hleft
  cases hleft

/-- **A row of calls that are performed delivers** the results of the calls, one after
the other. -/
theorem delivers_calls (hnodup : members.Nodup) (hknown : ∀ r < members.length, known r n = true)
    (h : ∀ k ∈ calls, Performed members n Q (run k) (result k)) :
    Delivers members n Eager (start (calls.map run) known) fun r =>
      calls.map fun k => result k r := by
  obtain ⟨blocks, _, hperforms⟩ := performs_runCalls h fun _ => []
  obtain ⟨u, hdone, hend⟩ := hperforms.completes (owned_start fun k hk => (h k hk).polite)
    fun r hr => stopped_start (fun k hk => (h k hk).outside) (Nat.le_of_not_lt hr)
  refine delivers_of_end (r := ProcessNetwork.Step) hnodup
    (fun h hstep => exists_run_of_step hnodup h hstep)
    (inv_start (fun k hk => (h k hk).polite) hknown) hdone ?_
  rw [view_start]
  exact hend

/-- **Calls in which one message follows the other** deliver their results also where
sends wait for their receives. -/
theorem delivers_prompt (hprompt : Prompt ready) (hnodup : members.Nodup)
    (hknown : ∀ r < members.length, known r n = true)
    (h : ∀ k ∈ calls, Performed members n
      (fun b => ∃ t, b = [t] ∧ t.1.source ≠ t.1.dest) (run k) (result k)) :
    Delivers members n ready (start (calls.map run) known) fun r =>
      calls.map fun k => result k r := by
  obtain ⟨blocks, hsingle, hperforms⟩ := performs_runCalls h fun _ => []
  obtain ⟨u, hdone, hend⟩ := hperforms.meets hsingle
    (owned_start fun k hk => (h k hk).polite)
    fun r hr => stopped_start (fun k hk => (h k hk).outside) (Nat.le_of_not_lt hr)
  refine delivers_of_end (r := Meeting) hnodup
    (fun h hmeet => exists_run_of_meeting hprompt hnodup h hmeet)
    (inv_start (fun k hk => (h k hk).polite) hknown) hdone ?_
  rw [view_start]
  exact hend

end Rows

end Session

end EsalsaMpi
