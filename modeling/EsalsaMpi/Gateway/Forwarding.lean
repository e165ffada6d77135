import EsalsaMpi.Library.LinkedLists
import EsalsaMpi.Library.Loops
import EsalsaMpi.Settings

/-!
# Messages that are forwarded into MPI

The gateway forwards a message to a process of its cluster with a `PMPI_Isend`
(`forward_mpi_message`) and keeps the message in a linked list, the latest first, until the
library reports that the send has completed.  `poll_mpi_requests` goes along the list, tests
every send, and takes the nodes of those that have completed out of it while it goes on.

Whatever completes in whatever order, and whatever is forwarded in between, what happens to a
message that has been forwarded is that it stays in the list, or that its send is reported
complete and then the message and its node are freed, each once (`freed_exactly_once`).
-/

namespace EsalsaMpi

namespace Forwarding

open LinkedLists

/-- `EMPI_ERR_INTERN`. -/
def empiErrIntern : Int := 17

/-- The fields of an `mpi_message` but for `next`.  Sends and messages are numbered as they
are started and received. -/
structure MpiMessage where
  r : Nat
  message : Nat
deriving DecidableEq

/-- A node with its fields. -/
abbrev Sent := Nat × MpiMessage

/-- What happens to messages: a send has been started, `PMPI_Test` reports one complete, the
memory of a message or of a node is freed. -/
inductive Event where
  | forwarded (e : Sent)
  | reported (r : Nat)
  | freedMessage (message : Nat)
  | freedNode (node : Nat)
deriving DecidableEq

/-- The list and the messages in memory, with the trace of what has happened to them. -/
structure State where
  blocks : Blocks MpiMessage
  mpiMessages : Option Nat
  started : Nat
  received : Nat
  messages : Nat → Bool
  trace : List Event

/-- What `PMPI_Test` comes to: an error, or the flag. -/
inductive Test where
  | error (code : Int)
  | flag (completed : Bool)

section Source

variable (clusterRank : Nat) (translateError : Int → Int)

/-- `forward_mpi_message` for a message, where `malloc` returns memory with the fields it has
been left with, or `NULL`, and `PMPI_Isend` returns `error`. -/
def forwardMpiMessage (s : State) (m : Nat) (pid : Pid) (malloc : Option (Node MpiMessage))
    (error : Int) : Int × State :=
  if getClusterRank pid ≠ clusterRank then
    (empiErrIntern, s)
  else
    match malloc with
    | none => (empiErrIntern, s)
    | some left =>
      if error ≠ 0 then
        (translateError error, { s with blocks := s.blocks.alloc left })
      else
        let node := s.blocks.made
        (0, { s with
          blocks := s.blocks.alloc ⟨s.mpiMessages, s.started, m⟩
          mpiMessages := some node
          started := s.started + 1
          trace := s.trace ++ [.forwarded (node, ⟨s.started, m⟩)] })

/-- `free` of a message; `none` if it is not there. -/
def State.freeMessage (s : State) (m : Nat) : Option State :=
  if s.messages m then
    some { s with
      messages := Function.update s.messages m false
      trace := s.trace ++ [.freedMessage m] }
  else
    none

/-- `free` of a node. -/
def State.freeNode (s : State) (a : Nat) : Option State :=
  (s.blocks.free a).map fun blocks => { s with blocks, trace := s.trace ++ [.freedNode a] }

/-- The node `curr` is taken out of the list behind `prev`; the result has the next one. -/
def State.unlink (s : State) (prev : Option Nat) (curr : Nat) : Option (State × Option Nat) :=
  match prev with
  | none =>
    s.mpiMessages.bind fun first => (s.blocks.nodes first).map fun node =>
      ({ s with mpiMessages := node.next }, node.next)
  | some prev =>
    (s.blocks.nodes curr).bind fun node =>
      (s.blocks.setNext prev node.next).bind fun blocks =>
        (blocks.nodes curr).map fun node => ({ s with blocks }, node.next)

/-- What is done with a node whose send has completed. -/
def State.complete (s : State) (prev : Option Nat) (curr : Nat) (x : MpiMessage) :
    Option (State × Option Nat) :=
  ({ s with trace := s.trace ++ [.reported x.r] } : State).unlink prev curr |>.bind
    fun (s, next) => (s.freeMessage x.message).bind fun s =>
      (s.freeNode curr).map fun s => (s, next)

/-- A round of the loop of `poll_mpi_requests` with `prev` and `curr`, where `PMPI_Test` on a
send comes to `test`. -/
def pollRound (test : Nat → Test) : State × Option Nat × Option Nat →
    (State × Option Nat × Option Nat) ⊕ Option (Int × State)
  | (s, _, none) => .inr (some (0, s))
  | (s, prev, some curr) =>
    match s.blocks.nodes curr with
    | none => .inr none
    | some node =>
      match test node.content.r with
      | .error code => .inr (some (translateError code, s))
      | .flag false => .inl (s, some curr, node.next)
      | .flag true =>
        match s.complete prev curr node.content with
        | none => .inr none
        | some (s, next) => .inl (s, prev, next)

/-- `poll_mpi_requests` returns `r`; `none` stands for a pointer that leads to nothing. -/
def Polls (test : Nat → Test) (s : State) (r : Option (Int × State)) : Prop :=
  Loops.Returns (pollRound translateError test) (s, none, s.mpiMessages) r

/-- What the gateway does: it receives a message and forwards it, or polls its sends. -/
inductive Call where
  | forward (pid : Pid) (malloc : Option (Node MpiMessage)) (error : Int)
  | poll (test : Nat → Test)

/-- A message has come to memory. -/
def State.receive (s : State) : State :=
  { s with
    received := s.received + 1
    messages := Function.update s.messages s.received true }

def Call.Performs (s : State) : Call → Option State → Prop
  | .forward pid malloc error, r =>
    r = some (forwardMpiMessage clusterRank translateError s.receive s.received pid malloc error).2
  | .poll test, r => ∃ r', Polls translateError test s r' ∧ r = r'.map Prod.snd

/-- A sequence of calls ends with a state, or with `none`. -/
inductive Ends : State → List Call → Option State → Prop where
  | nil (s : State) : Ends s [] (some s)
  | undefined {s : State} {call : Call} {calls : List Call}
      (h : call.Performs clusterRank translateError s none) : Ends s (call :: calls) none
  | cons {s s' : State} {call : Call} {calls : List Call} {r : Option State}
      (h : call.Performs clusterRank translateError s (some s')) (hrest : Ends s' calls r) :
      Ends s (call :: calls) r

/-- Before anything is forwarded. -/
def start : State := ⟨.empty, none, 0, 0, fun _ => false, []⟩

end Source

/-! ### What happens to a message -/

/-- An event is about what has been forwarded. -/
def about (e : Sent) : Event → Bool
  | .forwarded e' => e'.1 == e.1 || e'.2.r == e.2.r || e'.2.message == e.2.message
  | .reported r => r == e.2.r
  | .freedMessage m => m == e.2.message
  | .freedNode a => a == e.1

/-- What has been forwarded, in order. -/
def forwarded (trace : List Event) : List Sent :=
  trace.filterMap fun
    | .forwarded e => some e
    | _ => none

/-- What has been forwarded and not been reported complete, the latest first. -/
def incomplete (trace : List Event) : List Sent :=
  (forwarded trace).reverse.filter fun e => .reported e.2.r ∉ trace

/-- The events when a send has completed. -/
def completion (e : Sent) : List Event :=
  [.reported e.2.r, .freedMessage e.2.message, .freedNode e.1]

/-- **Freed exactly once, and not early**: what happens to anything that has been forwarded is
nothing more, or a report that it is complete and then the release of its message and of its
node; and nothing else is reported or freed. -/
structure FreedOnce (trace : List Event) : Prop where
  history : ∀ e ∈ forwarded trace, trace.filter (about e) = [.forwarded e] ∨
    trace.filter (about e) = .forwarded e :: completion e
  only : ∀ event ∈ trace, ∃ e ∈ forwarded trace, about e event = true

variable {trace : List Event} {e e' : Sent}

theorem mem_forwarded : e ∈ forwarded trace ↔ .forwarded e ∈ trace := by
  unfold forwarded
  rw [List.mem_filterMap]
  constructor
  · rintro ⟨event, hmem, hevent⟩
    cases event with
    | forwarded e' =>
        cases hevent
        exact hmem
    | _ => cases hevent
  · exact fun hmem => ⟨_, hmem, rfl⟩

theorem forwarded_append (t u : List Event) : forwarded (t ++ u) = forwarded t ++ forwarded u :=
  List.filterMap_append

theorem mem_incomplete : e ∈ incomplete trace ↔ e ∈ forwarded trace ∧ .reported e.2.r ∉ trace := by
  rw [incomplete, List.mem_filter, List.mem_reverse, decide_eq_true_eq]

/-- **Numbers are not used again**: what shares one of its numbers with something that has been
forwarded is the same. -/
theorem FreedOnce.eq_of_about (h : FreedOnce trace) (he : e ∈ forwarded trace)
    (he' : e' ∈ forwarded trace) (habout : about e (.forwarded e') = true) : e' = e := by
  have hmem : Event.forwarded e' ∈ trace.filter (about e) :=
    List.mem_filter.mpr ⟨mem_forwarded.mp he', habout⟩
  rcases h.history e he with hhistory | hhistory
  · rw [hhistory, List.mem_singleton] at hmem
    exact Event.forwarded.inj hmem
  · rw [hhistory] at hmem
    simpa [completion] using hmem

/-- What has not been reported complete has only been forwarded. -/
theorem FreedOnce.history_incomplete (h : FreedOnce trace) (he : e ∈ incomplete trace) :
    trace.filter (about e) = [.forwarded e] := by
  obtain ⟨hforwarded, hreported⟩ := mem_incomplete.mp he
  rcases h.history e hforwarded with hhistory | hhistory
  · exact hhistory
  · have hmem : Event.reported e.2.r ∈ trace.filter (about e) := by
      rw [hhistory]
      exact List.mem_cons_of_mem _ List.mem_cons_self
    exact absurd (List.mem_filter.mp hmem).1 hreported

/-- The numbers are those below the counters. -/
def Below (e : Sent) (e' : Sent) : Prop := e.1 < e'.1 ∧ e.2.r < e'.2.r ∧ e.2.message < e'.2.message

/-- Nothing has happened to what has new numbers. -/
theorem FreedOnce.filter_new (h : FreedOnce trace)
    (hnew : ∀ e' ∈ forwarded trace, Below e' e) : trace.filter (about e) = [] := by
  refine List.filter_eq_nil_iff.mpr fun event hevent habout => ?_
  obtain ⟨e', he', habout'⟩ := h.only event hevent
  obtain ⟨hnode, hr, hmessage⟩ := hnew e' he'
  cases event with
  | forwarded e'' =>
      obtain ⟨hnode, hr, hmessage⟩ := hnew e'' (mem_forwarded.mpr hevent)
      simp only [about, Bool.or_eq_true, beq_iff_eq] at habout
      omega
  | reported r =>
      simp only [about, beq_iff_eq] at habout habout'
      omega
  | freedMessage m =>
      simp only [about, beq_iff_eq] at habout habout'
      omega
  | freedNode a =>
      simp only [about, beq_iff_eq] at habout habout'
      omega

/-- **Something new is forwarded.** -/
theorem FreedOnce.forward (h : FreedOnce trace) (hnew : ∀ e' ∈ forwarded trace, Below e' e) :
    FreedOnce (trace ++ [.forwarded e]) ∧
      incomplete (trace ++ [.forwarded e]) = e :: incomplete trace := by
  have hfilter := h.filter_new hnew
  have hunreported : ∀ r, Event.reported r ∈ trace ++ [.forwarded e] ↔ .reported r ∈ trace := by
    intro r
    simp
  refine ⟨⟨?_, ?_⟩, ?_⟩
  · intro e' he'
    rw [forwarded_append, List.mem_append] at he'
    rcases he' with he' | he'
    · have hapart : about e' (.forwarded e) = false := by
        obtain ⟨hnode, hr, hmessage⟩ := hnew e' he'
        rw [Bool.eq_false_iff]
        simp only [about, ne_eq, Bool.or_eq_true, beq_iff_eq]
        omega
      rw [List.filter_append, List.filter_cons_of_neg (by rw [hapart]; exact Bool.false_ne_true),
        List.filter_nil, List.append_nil]
      exact h.history e' he'
    · have heq : e' = e := by simpa [forwarded] using he'
      subst heq
      left
      rw [List.filter_append, hfilter]
      simp [about]
  · intro event hevent
    rcases List.mem_append.mp hevent with hevent | hevent
    · obtain ⟨e', he', habout⟩ := h.only event hevent
      exact ⟨e', by rw [forwarded_append]; exact List.mem_append_left _ he', habout⟩
    · rw [List.mem_singleton.mp hevent]
      exact ⟨e, mem_forwarded.mpr (List.mem_append_right _ List.mem_cons_self), by simp [about]⟩
  · have hown : Event.reported e.2.r ∉ trace := by
      intro hmem
      have hin : Event.reported e.2.r ∈ trace.filter (about e) :=
        List.mem_filter.mpr ⟨hmem, by simp [about]⟩
      rw [hfilter] at hin
      cases hin
    unfold incomplete
    simp only [hunreported]
    rw [forwarded_append, List.reverse_append,
      show (forwarded [Event.forwarded e]).reverse = [e] from rfl, List.singleton_append,
      List.filter_cons, if_pos (decide_eq_true hown)]

/-- **A send completes**, and its message and its node are freed. -/
theorem FreedOnce.complete (h : FreedOnce trace) (he : e ∈ incomplete trace) :
    FreedOnce (trace ++ completion e) ∧
      incomplete (trace ++ completion e) = (incomplete trace).filter (· ≠ e) := by
  have hforwarded : forwarded (trace ++ completion e) = forwarded trace := by
    rw [forwarded_append]
    exact List.append_nil _
  have hin := (mem_incomplete.mp he).1
  have hapart : ∀ e' ∈ forwarded trace, e' ≠ e → ∀ event ∈ completion e,
      about e' event = false := by
    intro e' he' hne event hevent
    have hshare : about e' (.forwarded e) = false :=
      Bool.eq_false_iff.mpr fun habout => hne (h.eq_of_about he' hin habout).symm
    simp only [about, Bool.or_eq_false_iff] at hshare
    simp only [completion, List.mem_cons, List.not_mem_nil, or_false] at hevent
    rcases hevent with rfl | rfl | rfl
    · exact hshare.1.2
    · exact hshare.2
    · exact hshare.1.1
  refine ⟨⟨?_, ?_⟩, ?_⟩
  · intro e' he'
    rw [hforwarded] at he'
    rw [List.filter_append]
    by_cases hown : e' = e
    · subst hown
      right
      rw [h.history_incomplete he, List.filter_eq_self.mpr]
      · rfl
      · simp [completion, about]
    · have hnothing : (completion e).filter (about e') = [] := by
        refine List.filter_eq_nil_iff.mpr fun event hevent => ?_
        rw [hapart e' he' hown event hevent]
        exact Bool.false_ne_true
      rw [hnothing, List.append_nil]
      exact h.history e' he'
  · intro event hevent
    rw [hforwarded]
    rcases List.mem_append.mp hevent with hevent | hevent
    · exact h.only event hevent
    · refine ⟨e, hin, ?_⟩
      simp only [completion, List.mem_cons, List.not_mem_nil, or_false] at hevent
      rcases hevent with rfl | rfl | rfl <;> simp [about]
  · unfold incomplete
    rw [hforwarded, List.filter_filter]
    apply List.filter_congr
    intro e' he'
    have he' := List.mem_reverse.mp he'
    by_cases hown : e' = e
    · subst hown
      simp [completion]
    · have hr : e'.2.r ≠ e.2.r := by
        have := hapart e' he' hown (.reported e.2.r) List.mem_cons_self
        simp only [about, beq_eq_false_iff_ne] at this
        exact this.symm
      simp [completion, hown, hr]

/-! ### What the gateway keeps -/

/-- **The invariant**: the list has the nodes of what has been forwarded and not been reported
complete, the latest first, and their messages are in memory. -/
structure Inv (s : State) (nodes : List Sent) : Prop where
  linked : Linked s.blocks s.mpiMessages nodes
  nodes_eq : nodes = incomplete s.trace
  freed : FreedOnce s.trace
  messages : ∀ e ∈ nodes, s.messages e.2.message = true
  below : ∀ e ∈ forwarded s.trace, Below e (s.blocks.made, ⟨s.started, s.received⟩)

variable {s : State} {kept rest nodes : List Sent}

theorem Inv.mem_forwarded (h : Inv s nodes) (he : e ∈ nodes) : e ∈ forwarded s.trace := by
  rw [h.nodes_eq] at he
  exact (mem_incomplete.mp he).1

theorem inv_start : Inv start [] where
  linked := Linked.nil _
  nodes_eq := rfl
  freed := ⟨nofun, nofun⟩
  messages := nofun
  below := nofun

/-- A message that has come. -/
theorem Inv.receive (h : Inv s nodes) : Inv s.receive nodes := by
  refine ⟨h.linked, h.nodes_eq, h.freed, fun e he => ?_, fun e he => ?_⟩
  · have hlt := (h.below e (h.mem_forwarded he)).2.2
    show Function.update s.messages s.received true e.2.message = true
    rw [Function.update_of_ne (Nat.ne_of_lt hlt)]
    exact h.messages e he
  · obtain ⟨hnode, hr, hmessage⟩ := h.below e he
    exact ⟨hnode, hr, Nat.lt_succ_of_lt hmessage⟩

/-- **`forward_mpi_message`** on a message that has just come puts it in front, or the list
stays as it is. -/
theorem inv_forwardMpiMessage (clusterRank : Nat) (translateError : Int → Int) (h : Inv s nodes)
    (pid : Pid) (malloc : Option (Node MpiMessage)) (error : Int) :
    ∃ nodes', Inv (forwardMpiMessage clusterRank translateError s.receive s.received pid malloc
      error).2 nodes' := by
  have hreceived := h.receive
  unfold forwardMpiMessage
  split
  · exact ⟨nodes, hreceived⟩
  · cases malloc with
    | none => exact ⟨nodes, hreceived⟩
    | some left =>
        simp only
        split
        · refine ⟨nodes, hreceived.linked.alloc left, hreceived.nodes_eq, hreceived.freed,
            hreceived.messages, fun e he => ?_⟩
          obtain ⟨hnode, hr, hmessage⟩ := hreceived.below e he
          exact ⟨Nat.lt_succ_of_lt hnode, hr, hmessage⟩
        · obtain ⟨hfreed, hincomplete⟩ :=
            FreedOnce.forward (e := (s.blocks.made, ⟨s.started, s.received⟩)) h.freed h.below
          refine ⟨_, hreceived.linked.push ⟨s.started, s.received⟩, ?_, hfreed, ?_, ?_⟩
          · exact (congrArg (List.cons _) h.nodes_eq).trans hincomplete.symm
          · intro e he
            rcases List.mem_cons.mp he with rfl | he
            · exact Function.update_self ..
            · exact hreceived.messages e he
          · intro e he
            have he : e ∈ forwarded (s.trace ++ [.forwarded (s.blocks.made,
              ⟨s.started, s.received⟩)]) := he
            rw [forwarded_append, List.mem_append] at he
            rcases he with he | he
            · obtain ⟨hnode, hr, hmessage⟩ := h.below e he
              exact ⟨Nat.lt_succ_of_lt hnode, Nat.lt_succ_of_lt hr, Nat.lt_succ_of_lt hmessage⟩
            · have heq : e = (s.blocks.made, ⟨s.started, s.received⟩) := by
                simpa [forwarded] using he
              subst heq
              exact ⟨Nat.lt_succ_self _, Nat.lt_succ_self _, Nat.lt_succ_self _⟩

/-- Taking a node out and freeing it leaves the rest of the list. -/
theorem unlink_spec {trace : List Event} {a : Nat} {x : MpiMessage} {prev : Option Nat}
    (h : Linked s.blocks s.mpiMessages (kept ++ (a, x) :: rest))
    (hprev : prev = kept.getLast?.map Prod.fst) :
    ∃ blocks blocks' first next,
      ({ s with trace } : State).unlink prev a =
        some ({ s with blocks, mpiMessages := first, trace }, next) ∧
      blocks.free a = some blocks' ∧ blocks'.made = s.blocks.made ∧
      Linked blocks' first (kept ++ rest) ∧ Seg blocks' next rest none := by
  rcases List.eq_nil_or_concat kept with rfl | ⟨front, ⟨b, y⟩, rfl⟩
  · subst hprev
    obtain ⟨hfirst, next, blocks', ha, hfree, hlinked⟩ := h.pop
    refine ⟨s.blocks, blocks', next, next, ?_, hfree, Blocks.made_of_free hfree, hlinked,
      hlinked.seg⟩
    simp only [State.unlink, List.getLast?_nil, Option.map_none, hfirst, Option.bind_some, ha,
      Option.map_some]
  · rw [List.concat_eq_append] at h hprev ⊢
    rw [List.getLast?_concat] at hprev
    subst hprev
    rw [List.append_assoc] at h ⊢
    obtain ⟨next, blocks, blocks', _, ha, hset, ha', hfree, hseg, hlinked⟩ := h.unlink
    refine ⟨blocks, blocks', s.mpiMessages, next, ?_, hfree, ?_, hlinked, hseg⟩
    · simp only [State.unlink, Option.map_some, ha, Option.bind_some, hset, ha']
    · exact (Blocks.made_of_free hfree).trans (Blocks.made_of_setNext hset)

/-- **A node whose send has completed** goes, and the others stay. -/
theorem complete_spec {a : Nat} {x : MpiMessage} {prev : Option Nat}
    (h : Inv s (kept ++ (a, x) :: rest)) (hprev : prev = kept.getLast?.map Prod.fst) :
    ∃ s' next, s.complete prev a x = some (s', next) ∧ Inv s' (kept ++ rest) ∧
      Seg s'.blocks next rest none := by
  obtain ⟨blocks, blocks', first, next, hunlink, hfree, hmade, hlinked, hseg⟩ :=
    @unlink_spec s kept rest (s.trace ++ [.reported x.r]) a x prev h.linked hprev
  have hin : (a, x) ∈ kept ++ (a, x) :: rest := List.mem_append_right _ List.mem_cons_self
  have hmessage := h.messages _ hin
  have hincomplete : (a, x) ∈ incomplete s.trace := h.nodes_eq ▸ hin
  obtain ⟨hfreed, hrest⟩ := h.freed.complete hincomplete
  have hothers : (kept ++ (a, x) :: rest).filter (· ≠ (a, x)) = kept ++ rest := by
    obtain ⟨hkept, hrest⟩ := h.linked.notMem
    have hkeep : ∀ l : List Sent, a ∉ l.map Prod.fst → l.filter (· ≠ (a, x)) = l := by
      intro l hl
      refine List.filter_eq_self.mpr fun e he => decide_eq_true ?_
      rintro rfl
      exact hl (List.mem_map_of_mem he)
    rw [List.filter_append, List.filter_cons_of_neg (by simp), hkeep kept hkept, hkeep rest hrest]
  refine ⟨{ s with
      blocks := blocks'
      mpiMessages := first
      messages := Function.update s.messages x.message false
      trace := s.trace ++ completion (a, x) }, next, ?_, ?_, hseg⟩
  · simp only [State.complete, hunlink, Option.bind_some, State.freeMessage,
      if_pos (show s.messages x.message = true from hmessage), State.freeNode, hfree,
      Option.map_some, completion, List.append_assoc, List.cons_append, List.nil_append]
  · refine ⟨hlinked, ?_, hfreed, fun e he => ?_, fun e he => ?_⟩
    · rw [hrest, ← h.nodes_eq, hothers]
    · have he' : e ∈ kept ++ (a, x) :: rest := by
        rw [← hothers] at he
        exact (List.mem_filter.mp he).1
      have hne : e ≠ (a, x) := by
        rw [← hothers] at he
        exact of_decide_eq_true (List.mem_filter.mp he).2
      have hapart : e.2.message ≠ x.message := by
        intro heq
        refine hne (h.freed.eq_of_about (h.mem_forwarded hin) (h.mem_forwarded he') ?_)
        simp [about, heq]
      show Function.update s.messages x.message false e.2.message = true
      rw [Function.update_of_ne hapart]
      exact h.messages e he'
    · have he : e ∈ forwarded (s.trace ++ completion (a, x)) := he
      rw [forwarded_append, show forwarded (completion (a, x)) = [] from rfl,
        List.append_nil] at he
      show Below e (blocks'.made, _)
      rw [hmade]
      exact h.below e he

/-- A node stays in the list if its send is not reported complete. -/
def Test.stays : Test → Bool
  | .flag true => false
  | _ => true

/-- **The loop of `poll_mpi_requests`** from a node on; before it are the nodes that stay. -/
theorem returns_poll (translateError : Int → Int) (test : Nat → Test) {prev curr : Option Nat}
    (h : Inv s (kept ++ rest)) (hcurr : Seg s.blocks curr rest none)
    (hprev : prev = kept.getLast?.map Prod.fst) :
    ∃ code s' rest', Loops.Returns (pollRound translateError test) (s, prev, curr)
        (some (code, s')) ∧ Inv s' (kept ++ rest') ∧
      ((∀ r, ∃ b, test r = .flag b) → code = 0 ∧ rest' = rest.filter fun e => (test e.2.r).stays) := by
  induction rest generalizing s kept prev curr with
  | nil =>
      cases hcurr
      exact ⟨0, s, [], .last rfl, h, fun _ => ⟨rfl, rfl⟩⟩
  | cons e rest ih =>
      obtain ⟨a, x⟩ := e
      obtain ⟨hstart, next, ha, hrest⟩ := hcurr
      subst hstart
      cases htest : test x.r with
      | error code =>
          refine ⟨translateError code, s, (a, x) :: rest, .last ?_, h, fun hflags => ?_⟩
          · simp only [pollRound, ha, htest]
          · obtain ⟨b, hb⟩ := hflags x.r
            rw [htest] at hb
            cases hb
      | flag completed =>
          cases completed with
          | false =>
              have h' : Inv s ((kept ++ [(a, x)]) ++ rest) := by
                rw [List.append_assoc]
                exact h
              obtain ⟨code, s', rest', hreturns, hinv, hflags⟩ := ih h' hrest
                (show some a = _ by rw [List.getLast?_concat]; rfl)
              refine ⟨code, s', (a, x) :: rest', .next ?_ hreturns, ?_, fun hall => ?_⟩
              · simp only [pollRound, ha, htest]
              · rw [List.append_assoc] at hinv
                exact hinv
              · obtain ⟨hcode, hrest'⟩ := hflags hall
                refine ⟨hcode, ?_⟩
                rw [List.filter_cons, htest, hrest']
                rfl
          | true =>
              obtain ⟨s₁, next, hcomplete, hinv₁, hseg⟩ := complete_spec h hprev
              obtain ⟨code, s', rest', hreturns, hinv, hflags⟩ := ih hinv₁ hseg hprev
              refine ⟨code, s', rest', .next ?_ hreturns, hinv, fun hall => ?_⟩
              · simp only [pollRound, ha, htest, hcomplete]
              · obtain ⟨hcode, hrest'⟩ := hflags hall
                refine ⟨hcode, ?_⟩
                rw [List.filter_cons, htest, hrest']
                rfl

/-- **`poll_mpi_requests`** returns, in one way, and where every test succeeds the nodes that
are left are those whose sends were not reported complete, in their order. -/
theorem polls_iff (translateError : Int → Int) (h : Inv s nodes) (test : Nat → Test) :
    ∃ code s' nodes', (∀ r, Polls translateError test s r ↔ r = some (code, s')) ∧
      Inv s' nodes' ∧ ((∀ r, ∃ b, test r = .flag b) →
        code = 0 ∧ nodes' = nodes.filter fun e => (test e.2.r).stays) := by
  have hstart : Inv s ([] ++ nodes) := h
  obtain ⟨code, s', nodes', hreturns, hinv, hflags⟩ :=
    returns_poll translateError test hstart h.linked.seg (show none = _ from rfl)
  refine ⟨code, s', nodes', fun r => ?_, hinv, hflags⟩
  constructor
  · exact fun hr => hr.unique hreturns
  · rintro rfl
    exact hreturns

/-- **A call** returns, in one way, and keeps the invariant. -/
theorem performs_iff (clusterRank : Nat) (translateError : Int → Int) (h : Inv s nodes)
    (call : Call) : ∃ s' nodes', (∀ r, call.Performs clusterRank translateError s r ↔ r = some s') ∧
      Inv s' nodes' := by
  cases call with
  | forward pid malloc error =>
      obtain ⟨nodes', hinv⟩ := inv_forwardMpiMessage clusterRank translateError h pid malloc error
      exact ⟨_, nodes', fun r => Iff.rfl, hinv⟩
  | poll test =>
      obtain ⟨code, s', nodes', hpolls, hinv, _⟩ := polls_iff translateError h test
      refine ⟨s', nodes', fun r => ?_, hinv⟩
      constructor
      · rintro ⟨r', hr', rfl⟩
        rw [(hpolls r').mp hr']
        rfl
      · rintro rfl
        exact ⟨_, (hpolls _).mpr rfl, rfl⟩

/-- **A sequence of calls** ends, in one way, and keeps the invariant. -/
theorem ends_iff (clusterRank : Nat) (translateError : Int → Int) (h : Inv s nodes)
    (calls : List Call) : ∃ s' nodes',
      (∀ r, Ends clusterRank translateError s calls r ↔ r = some s') ∧ Inv s' nodes' := by
  induction calls generalizing s nodes with
  | nil =>
      refine ⟨s, nodes, fun r => ?_, h⟩
      constructor
      · intro hends
        cases hends
        rfl
      · rintro rfl
        exact .nil s
  | cons call calls ih =>
      obtain ⟨s₁, nodes₁, hcall, hinv₁⟩ := performs_iff clusterRank translateError h call
      obtain ⟨s', nodes', hrest, hinv⟩ := ih hinv₁
      refine ⟨s', nodes', fun r => ?_, hinv⟩
      constructor
      · intro hends
        cases hends with
        | undefined hnone => cases (hcall none).mp hnone
        | cons hperforms htail =>
            cases (hcall _).mp hperforms
            exact (hrest _).mp htail
      · rintro rfl
        exact .cons ((hcall _).mpr rfl) ((hrest _).mpr rfl)

/-- **Freed exactly once, and not early.**  Every sequence of forwards and polls, with whatever
the library reports in each, ends without a use of memory that is not there.  What has been
forwarded is in the list, the latest first, until it is reported complete, and then its
message and its node are freed, each once.  A poll in which the tests succeed leaves those in
the list that it does not report, in their order. -/
theorem freed_exactly_once (clusterRank : Nat) (translateError : Int → Int) (calls : List Call) :
    ∃ s, (∀ r, Ends clusterRank translateError start calls r ↔ r = some s) ∧
      FreedOnce s.trace ∧ Linked s.blocks s.mpiMessages (incomplete s.trace) ∧
      ∀ test : Nat → Test, (∀ r, ∃ b, test r = .flag b) →
        ∃ s', (∀ r, Polls translateError test s r ↔ r = some (0, s')) ∧ FreedOnce s'.trace ∧
          Linked s'.blocks s'.mpiMessages
            ((incomplete s.trace).filter fun e => (test e.2.r).stays) ∧
          incomplete s'.trace = (incomplete s.trace).filter fun e => (test e.2.r).stays := by
  obtain ⟨s, nodes, hends, hinv⟩ := ends_iff clusterRank translateError inv_start calls
  have hnodes := hinv.nodes_eq
  subst hnodes
  refine ⟨s, hends, hinv.freed, hinv.linked, fun test htest => ?_⟩
  obtain ⟨code, s', nodes', hpolls, hinv', hflags⟩ := polls_iff translateError hinv test
  obtain ⟨rfl, rfl⟩ := hflags htest
  exact ⟨s', hpolls, hinv'.freed, hinv'.linked, hinv'.nodes_eq.symm⟩

end Forwarding

end EsalsaMpi
