import EsalsaMpi.Backend.Messaging
import EsalsaMpi.Library.LinkedLists
import EsalsaMpi.Library.Loops

/-!
# The queue of messages

A `message_queue` is a linked list with a pointer to its first and one to its last node.
`message_enqueue` puts a node behind the last, `message_dequeue` takes the first, and
`data_message_dequeue_matching` goes along the list until a message matches and takes its node
out, with cases for the first node, the last one and all others.

Whatever is called in whatever order, the nodes are those of a list to which the calls do what
their names say (`queue_refines_list`).  No call reads or frees a node that is not there.
-/

namespace EsalsaMpi

namespace MessageQueues

open LinkedLists MatchQueue

/-- `message_queue`, and the nodes that have been allocated. -/
structure MessageQueue (α : Type) where
  blocks : Blocks α
  head : Option Nat
  tail : Option Nat

section Source

variable {α : Type}

def messageQueueInit (blocks : Blocks α) : MessageQueue α := ⟨blocks, none, none⟩

/-- `message_enqueue`, where `memory` tells whether `malloc` finds memory; `none` if a pointer
is followed that leads to no node. -/
def messageEnqueue (q : MessageQueue α) (m : α) (memory : Bool) : Option (Int × MessageQueue α) :=
  if memory then
    let info := q.blocks.made
    let blocks := q.blocks.alloc ⟨none, m⟩
    if q.head = none then
      some (0, ⟨blocks, some info, some info⟩)
    else
      q.tail.bind fun tail =>
        (blocks.setNext tail (some info)).map fun blocks => (0, ⟨blocks, q.head, some info⟩)
  else
    some (-1, q)

def messageDequeue (q : MessageQueue α) : Option (Option α × MessageQueue α) :=
  match q.head with
  | none => some (none, q)
  | some current =>
    (q.blocks.nodes current).bind fun node =>
      let q' := if q.head = q.tail then ⟨q.blocks, none, none⟩ else { q with head := node.next }
      (q'.blocks.free current).map fun blocks => (some node.content, { q' with blocks })

/-- The node that matches is taken out: the three cases of the loop. -/
def MessageQueue.detach (q : MessageQueue α) (curr : Nat) (prev : Option Nat) :
    Option (MessageQueue α) :=
  if q.head = some curr then
    if q.head = q.tail then
      some ⟨q.blocks, none, none⟩
    else
      (q.blocks.nodes curr).map fun node => { q with head := node.next }
  else if q.tail = some curr then
    prev.bind fun prev =>
      (q.blocks.setNext prev none).map fun blocks => ⟨blocks, q.head, some prev⟩
  else
    prev.bind fun prev => (q.blocks.nodes curr).bind fun node =>
      (q.blocks.setNext prev node.next).map fun blocks => { q with blocks }

/-- What is done when the message of `curr` matches. -/
def MessageQueue.take (q : MessageQueue α) (curr : Nat) (prev : Option Nat) :
    Option (Option α × MessageQueue α) :=
  (q.detach curr prev).bind fun q =>
    (q.blocks.setNext curr none).bind fun blocks =>
      (blocks.nodes curr).bind fun node =>
        (blocks.free curr).map fun blocks => (some node.content, { q with blocks })

/-- A round of the loop that looks for a message, with `curr` and `prev`. -/
def matchRound (q : MessageQueue α) (p : α → Bool) :
    Option Nat × Option Nat → (Option Nat × Option Nat) ⊕ Option (Option α × MessageQueue α)
  | (none, _) => .inr (some (none, q))
  | (some curr, prev) =>
    match q.blocks.nodes curr with
    | none => .inr none
    | some node =>
      if p node.content then .inr (q.take curr prev) else .inl (node.next, some curr)

/-- `data_message_dequeue_matching` for the messages that satisfy `p` returns `r`. -/
def DequeuesMatching (q : MessageQueue α) (p : α → Bool)
    (r : Option (Option α × MessageQueue α)) : Prop :=
  if q.head = none then r = some (none, q) else Loops.Returns (matchRound q p) (q.head, none) r

end Source

/-- `match_message`, for a communicator that is any `int`. -/
def matchPattern (m : DataMessage) (comm source tag : Int) : Bool :=
  comm == (m.comm : Int) && (source == empiAnySource || source == m.source) &&
    (tag == empiAnyTag || tag == m.tag)

/-- A call of one of the functions. -/
inductive Call where
  | enqueue (m : DataMessage) (memory : Bool)
  | dequeue
  | dequeueMatching (comm source tag : Int)

/-- What a call returns. -/
inductive Answer where
  | code (error : Int)
  | message (m : Option DataMessage)

/-- A call returns `r`, where `none` stands for a pointer that leads to no node. -/
def Call.Performs (q : MessageQueue DataMessage) :
    Call → Option (Answer × MessageQueue DataMessage) → Prop
  | .enqueue m memory, r => r = (messageEnqueue q m memory).map fun x => (.code x.1, x.2)
  | .dequeue, r => r = (messageDequeue q).map fun x => (.message x.1, x.2)
  | .dequeueMatching comm source tag, r =>
    ∃ r', DequeuesMatching q (fun m => matchPattern m comm source tag) r' ∧
      r = r'.map fun x => (.message x.1, x.2)

/-- A sequence of calls ends with its answers and the queue, or with `none`. -/
inductive Ends : MessageQueue DataMessage → List Call →
    Option (List Answer × MessageQueue DataMessage) → Prop where
  | nil (q : MessageQueue DataMessage) : Ends q [] (some ([], q))
  | undefined {q : MessageQueue DataMessage} {call : Call} {calls : List Call}
      (h : call.Performs q none) : Ends q (call :: calls) none
  | cons {q q' : MessageQueue DataMessage} {call : Call} {calls : List Call} {answer : Answer}
      {r : Option (List Answer × MessageQueue DataMessage)}
      (h : call.Performs q (some (answer, q'))) (hrest : Ends q' calls r) :
      Ends q (call :: calls) (r.map fun x => (answer :: x.1, x.2))

/-! ### The list that the queue stands for -/

/-- What a call does to a list of messages: it appends one, removes the first, or removes the
first that matches. -/
def Call.onList : Call → List DataMessage → Answer × List DataMessage
  | .enqueue m memory, l => if memory then (.code 0, l ++ [m]) else (.code (-1), l)
  | .dequeue, l => (.message l.head?, l.tail)
  | .dequeueMatching comm source tag, l =>
    match takeFirst (fun m => matchPattern m comm source tag) l with
    | none => (.message none, l)
    | some (m, l') => (.message (some m), l')

/-- What a sequence of calls does to a list of messages. -/
def onList : List Call → List DataMessage → List Answer × List DataMessage
  | [], l => ([], l)
  | call :: calls, l =>
    let first := call.onList l
    let rest := onList calls first.2
    (first.1 :: rest.1, rest.2)

section Refinement

variable {α : Type} {q : MessageQueue α} {nodes l₁ l₂ : List (Nat × α)} {l : List α}

/-- These are the nodes of the queue. -/
structure MessageQueue.Nodes (q : MessageQueue α) (nodes : List (Nat × α)) : Prop where
  linked : Linked q.blocks q.head nodes
  tail : q.tail = nodes.getLast?.map Prod.fst

/-- **The queue represents the list**: its nodes have the messages in order, the head is
`NULL` exactly if the list is empty, and otherwise the tail is the last node and points
nowhere. -/
structure MessageQueue.Represents (q : MessageQueue α) (l : List α) : Prop where
  nodes : ∃ nodes, Linked q.blocks q.head nodes ∧ nodes.map Prod.snd = l
  head : q.head = none ↔ l = []
  tail : l ≠ [] → ∃ a x, q.tail = some a ∧ q.blocks.nodes a = some ⟨none, x⟩ ∧
    ∃ front, Linked q.blocks q.head (front ++ [(a, x)]) ∧ (front ++ [(a, x)]).map Prod.snd = l

theorem MessageQueue.Nodes.represents (h : q.Nodes nodes) :
    q.Represents (nodes.map Prod.snd) := by
  refine ⟨⟨nodes, h.linked, rfl⟩, ?_, fun hne => ?_⟩
  · rw [seg_null_iff h.linked.seg, List.map_eq_nil_iff]
  · rcases List.eq_nil_or_concat nodes with rfl | ⟨front, ⟨a, x⟩, rfl⟩
    · exact absurd rfl hne
    · rw [List.concat_eq_append] at h ⊢
      obtain ⟨_, next, ha, hnext⟩ := h.linked.node
      cases hnext
      refine ⟨a, x, ?_, ha, front, h.linked, rfl⟩
      rw [h.tail, List.getLast?_concat]
      rfl

theorem nodes_init (blocks : Blocks α) : (messageQueueInit blocks).Nodes [] :=
  ⟨Linked.nil blocks, rfl⟩

/-- `message_enqueue` appends. -/
theorem nodes_enqueue (h : q.Nodes nodes) (m : α) :
    ∃ q', messageEnqueue q m true = some (0, q') ∧
      q'.Nodes (nodes ++ [(q.blocks.made, m)]) := by
  obtain ⟨blocks, head, tail⟩ := q
  obtain ⟨hlinked, htail⟩ := h
  simp only at hlinked htail
  rcases List.eq_nil_or_concat nodes with rfl | ⟨front, ⟨a, y⟩, rfl⟩
  · have hhead : head = none := (seg_null_iff hlinked.seg).mpr rfl
    subst hhead
    exact ⟨_, rfl, hlinked.push m, rfl⟩
  · rw [List.concat_eq_append] at hlinked htail ⊢
    rw [List.getLast?_concat] at htail
    have hhead : head ≠ none := fun hnull => by
      simpa using (seg_null_iff hlinked.seg).mp hnull
    obtain ⟨blocks', hset, hlinked'⟩ := hlinked.snoc m
    subst htail
    refine ⟨⟨blocks', head, some blocks.made⟩, ?_, ?_, ?_⟩
    · simp only [messageEnqueue, if_true, if_neg hhead, Option.map_some, Option.bind_some, hset]
    · rw [List.append_assoc]
      exact hlinked'
    · rw [List.getLast?_concat]
      rfl

/-- The first node is the last one only if it is alone. -/
theorem head_eq_tail_iff {a : Nat} {x : α} (h : q.Nodes ((a, x) :: nodes)) :
    q.head = q.tail ↔ nodes = [] := by
  obtain ⟨hhead, _⟩ := h.linked.pop
  rw [hhead, h.tail]
  constructor
  · intro heq
    cases nodes with
    | nil => rfl
    | cons e nodes =>
        have hlast : (e :: nodes).getLast? = some ((e :: nodes).getLast (List.cons_ne_nil _ _)) :=
          List.getLast?_eq_some_getLast _
        rw [List.getLast?_cons_cons, hlast, Option.map_some, Option.some.injEq] at heq
        have hmem : a ∈ (e :: nodes).map Prod.fst := by
          rw [heq]
          exact List.mem_map_of_mem (List.getLast_mem _)
        exact absurd hmem (List.nodup_cons.mp h.linked.nodup).1
  · rintro rfl
    rfl

/-- `message_dequeue` removes the first. -/
theorem nodes_dequeue (h : q.Nodes nodes) :
    ∃ q', messageDequeue q = some ((nodes.map Prod.snd).head?, q') ∧ q'.Nodes nodes.tail := by
  cases nodes with
  | nil =>
      have hhead : q.head = none := (seg_null_iff h.linked.seg).mpr rfl
      refine ⟨q, ?_, h⟩
      rw [messageDequeue, hhead]
      rfl
  | cons e nodes =>
      obtain ⟨a, x⟩ := e
      obtain ⟨hhead, next, blocks', ha, hfree, hlinked⟩ := h.linked.pop
      have hlast := head_eq_tail_iff h
      rw [hhead] at hlast
      by_cases hone : nodes = []
      · subst hone
        have hnext : next = none := (seg_null_iff hlinked.seg).mpr rfl
        subst hnext
        refine ⟨⟨blocks', none, none⟩, ?_, hlinked, rfl⟩
        simp only [messageDequeue, hhead, ha, Option.bind_some, if_pos (hlast.mpr rfl), hfree,
          Option.map_some]
        rfl
      · refine ⟨⟨blocks', next, q.tail⟩, ?_, hlinked, ?_⟩
        · simp only [messageDequeue, hhead, ha, Option.bind_some, if_neg (fun h => hone (hlast.mp h)),
            hfree, Option.map_some]
          rfl
        · obtain ⟨e, nodes, rfl⟩ := List.exists_cons_of_ne_nil hone
          rw [h.tail, List.getLast?_cons_cons]
          rfl

/-- What is left to do when the pointers of the queue have been set. -/
theorem take_eq {q₁ : MessageQueue α} {a : Nat} {prev next : Option Nat} {x : α}
    {blocks : Blocks α} (hdetach : q.detach a prev = some q₁)
    (ha : q₁.blocks.nodes a = some ⟨next, x⟩) (hfree : q₁.blocks.free a = some blocks) :
    q.take a prev = some (some x, { q₁ with blocks }) := by
  have hset := Blocks.setNext_eq ha none
  have hfreed := Blocks.free_of_setNext hset
  rw [hfree] at hfreed
  rw [MessageQueue.take, hdetach, Option.bind_some, hset, Option.bind_some]
  simp only [Function.update_self, Option.bind_some, hfreed, Option.map_some]

/-- **A node is taken out**, be it the first, the last or another. -/
theorem nodes_take {a : Nat} {x : α} {prev : Option Nat} (h : q.Nodes (l₁ ++ (a, x) :: l₂))
    (hprev : prev = l₁.getLast?.map Prod.fst) :
    ∃ q', q.take a prev = some (some x, q') ∧ q'.Nodes (l₁ ++ l₂) := by
  rcases List.eq_nil_or_concat l₁ with rfl | ⟨front, ⟨b, y⟩, rfl⟩
  · rw [List.nil_append] at h ⊢
    obtain ⟨hhead, next, blocks', ha, hfree, hlinked⟩ := h.linked.pop
    have hlast := head_eq_tail_iff h
    by_cases hone : l₂ = []
    · subst hone
      have hnext : next = none := (seg_null_iff hlinked.seg).mpr rfl
      subst hnext
      have hdetach : q.detach a prev = some ⟨q.blocks, none, none⟩ := by
        rw [MessageQueue.detach, if_pos hhead, if_pos (hlast.mpr rfl)]
      exact ⟨_, take_eq hdetach ha hfree, hlinked, rfl⟩
    · have hdetach : q.detach a prev = some { q with head := next } := by
        rw [MessageQueue.detach, if_pos hhead, if_neg (fun h => hone (hlast.mp h)), ha]
        rfl
      refine ⟨_, take_eq hdetach ha hfree, hlinked, ?_⟩
      obtain ⟨e, nodes, rfl⟩ := List.exists_cons_of_ne_nil hone
      show q.tail = _
      rw [h.tail, List.getLast?_cons_cons]
  · rw [List.concat_eq_append] at h hprev ⊢
    rw [List.getLast?_concat] at hprev
    subst hprev
    obtain ⟨ha₁, ha₂⟩ := h.linked.notMem
    rw [List.append_assoc] at h ⊢
    obtain ⟨next, blocks₁, blocks₂, _, ha, hset, ha', hfree, hseg, hlinked⟩ := h.linked.unlink
    have hhead : q.head ≠ some a := by
      intro hhead
      have hfirst := h.linked.seg
      rw [hhead] at hfirst
      cases front with
      | nil =>
          rw [Option.some.inj hfirst.1] at ha₁
          exact ha₁ List.mem_cons_self
      | cons e front =>
          rw [Option.some.inj hfirst.1] at ha₁
          exact ha₁ List.mem_cons_self
    by_cases hlast : l₂ = []
    · subst hlast
      have hnext : next = none := (seg_null_iff hseg).mpr rfl
      subst hnext
      have htail : q.tail = some a := by
        rw [h.tail]
        simp
      have hdetach : q.detach a (some b) = some ⟨blocks₁, q.head, some b⟩ := by
        rw [MessageQueue.detach, if_neg hhead, if_pos htail, Option.bind_some, hset]
        rfl
      refine ⟨_, take_eq hdetach ha' hfree, hlinked, ?_⟩
      show some b = _
      rw [List.append_nil, List.getLast?_concat]
      rfl
    · obtain ⟨rest, ⟨c, z⟩, rfl⟩ := (List.eq_nil_or_concat l₂).resolve_left hlast
      rw [List.concat_eq_append] at *
      have hc : q.tail = some c := by
        rw [h.tail, ← List.append_assoc, ← List.cons_append, ← List.append_assoc,
          List.getLast?_concat]
        rfl
      have htail : q.tail ≠ some a := by
        rw [hc]
        rintro heq
        rw [Option.some.inj heq] at ha₂
        exact ha₂ (by simp)
      have hdetach : q.detach a (some b) = some { q with blocks := blocks₁ } := by
        rw [MessageQueue.detach, if_neg hhead, if_neg htail, Option.bind_some, ha,
          Option.bind_some, hset]
        rfl
      refine ⟨_, take_eq hdetach ha' hfree, hlinked, ?_⟩
      show q.tail = _
      rw [hc, ← List.append_assoc, ← List.append_assoc, List.getLast?_concat]
      rfl

/-- **The loop** from a node on finds the first message that matches there; before it are the
nodes whose messages do not match. -/
theorem returns_match (p : α → Bool) {curr prev : Option Nat} (h : q.Nodes (l₁ ++ l₂))
    (hcurr : Seg q.blocks curr l₂ none) (hprev : prev = l₁.getLast?.map Prod.fst) :
    ∃ r, Loops.Returns (matchRound q p) (curr, prev) r ∧
      match takeFirst p (l₂.map Prod.snd) with
      | none => r = some (none, q)
      | some (x, rest) => ∃ q' nodes, r = some (some x, q') ∧ q'.Nodes nodes ∧
          nodes.map Prod.snd = l₁.map Prod.snd ++ rest := by
  induction l₂ generalizing l₁ curr prev with
  | nil =>
      cases hcurr
      exact ⟨_, .last rfl, rfl⟩
  | cons e l₂ ih =>
      obtain ⟨a, x⟩ := e
      obtain ⟨hstart, next, ha, hrest⟩ := hcurr
      subst hstart
      rw [List.map_cons, takeFirst_cons]
      by_cases hp : p x = true
      · obtain ⟨q', htake, hnodes⟩ := nodes_take h hprev
        refine ⟨some (some x, q'), .last ?_, ?_⟩
        · simp only [matchRound, ha, hp, if_true, htake]
        · simp only [hp, if_true]
          exact ⟨q', l₁ ++ l₂, rfl, hnodes, List.map_append⟩
      · have h' : q.Nodes ((l₁ ++ [(a, x)]) ++ l₂) := by
          rw [List.append_assoc]
          exact h
        obtain ⟨r, hr, hcase⟩ := ih h' hrest
          (show some a = _ by rw [List.getLast?_concat]; rfl)
        refine ⟨r, .next ?_ hr, ?_⟩
        · simp only [matchRound, ha, hp, if_false, Bool.false_eq_true]
        · simp only [hp, if_false, Bool.false_eq_true]
          cases hfirst : takeFirst p (l₂.map Prod.snd) with
          | none =>
              rw [hfirst] at hcase
              exact hcase
          | some found =>
              rw [hfirst] at hcase
              obtain ⟨q', nodes, hr', hnodes, hmap⟩ := hcase
              refine ⟨q', nodes, hr', hnodes, ?_⟩
              rw [hmap, List.map_append, List.append_assoc]
              rfl

/-- `data_message_dequeue_matching` removes the first message that matches, and nothing else
comes of it. -/
theorem dequeuesMatching_iff (p : α → Bool) (h : q.Nodes nodes) :
    ∃ r₀, (∀ r, DequeuesMatching q p r ↔ r = r₀) ∧
      match takeFirst p (nodes.map Prod.snd) with
      | none => r₀ = some (none, q)
      | some (x, rest) => ∃ q' nodes', r₀ = some (some x, q') ∧ q'.Nodes nodes' ∧
          nodes'.map Prod.snd = rest := by
  by_cases hhead : q.head = none
  · have hnil : nodes = [] := (seg_null_iff h.linked.seg).mp hhead
    subst hnil
    refine ⟨some (none, q), fun r => ?_, rfl⟩
    rw [DequeuesMatching, if_pos hhead]
  · have hstart : q.Nodes ([] ++ nodes) := h
    obtain ⟨r₀, hr₀, hcase⟩ := returns_match p hstart h.linked.seg (show none = _ from rfl)
    refine ⟨r₀, fun r => ?_, hcase⟩
    rw [DequeuesMatching, if_neg hhead]
    constructor
    · exact fun hr => hr.unique hr₀
    · rintro rfl
      exact hr₀

end Refinement

section Calls

variable {q : MessageQueue DataMessage} {l : List DataMessage}

/-- The queue has nodes with these messages. -/
def Has (q : MessageQueue DataMessage) (l : List DataMessage) : Prop :=
  ∃ nodes, q.Nodes nodes ∧ nodes.map Prod.snd = l

/-- **A call** does to the queue what it does to the list. -/
theorem performs_iff (h : Has q l) (call : Call) :
    ∃ q', Has q' (call.onList l).2 ∧
      ∀ r, call.Performs q r ↔ r = some ((call.onList l).1, q') := by
  obtain ⟨nodes, hnodes, rfl⟩ := h
  cases call with
  | enqueue m memory =>
      cases memory with
      | false => exact ⟨q, ⟨nodes, hnodes, rfl⟩, fun r => Iff.rfl⟩
      | true =>
          obtain ⟨q', henqueue, hnodes'⟩ := nodes_enqueue hnodes m
          refine ⟨q', ⟨_, hnodes', by rw [List.map_append]; rfl⟩, fun r => ?_⟩
          rw [Call.Performs, henqueue]
          exact Iff.rfl
  | dequeue =>
      obtain ⟨q', hdequeue, hnodes'⟩ := nodes_dequeue hnodes
      refine ⟨q', ⟨_, hnodes', List.map_tail⟩, fun r => ?_⟩
      rw [Call.Performs, hdequeue]
      exact Iff.rfl
  | dequeueMatching comm source tag =>
      obtain ⟨r₀, hiff, hcase⟩ :=
        dequeuesMatching_iff (fun m => matchPattern m comm source tag) hnodes
      have hperforms : ∀ r, (Call.dequeueMatching comm source tag).Performs q r ↔
          r = r₀.map fun x => (.message x.1, x.2) := by
        intro r
        constructor
        · rintro ⟨r', hr', rfl⟩
          rw [(hiff r').mp hr']
        · rintro rfl
          exact ⟨r₀, (hiff r₀).mpr rfl, rfl⟩
      rw [Call.onList]
      cases hfirst : takeFirst (fun m => matchPattern m comm source tag)
          (nodes.map Prod.snd) with
      | none =>
          rw [hfirst] at hcase
          subst hcase
          exact ⟨q, ⟨nodes, hnodes, rfl⟩, hperforms⟩
      | some found =>
          rw [hfirst] at hcase
          obtain ⟨q', nodes', rfl, hnodes', hmap⟩ := hcase
          exact ⟨q', ⟨nodes', hnodes', hmap⟩, hperforms⟩

/-- **A sequence of calls** does to the queue what it does to the list. -/
theorem ends_iff (h : Has q l) (calls : List Call) :
    ∃ q', Has q' (onList calls l).2 ∧
      ∀ r, Ends q calls r ↔ r = some ((onList calls l).1, q') := by
  induction calls generalizing q l with
  | nil =>
      refine ⟨q, h, fun r => ?_⟩
      constructor
      · intro hends
        cases hends
        rfl
      · rintro rfl
        exact .nil q
  | cons call calls ih =>
      obtain ⟨q₁, hq₁, hcall⟩ := performs_iff h call
      obtain ⟨q', hq', hrest⟩ := ih hq₁
      refine ⟨q', hq', fun r => ?_⟩
      constructor
      · intro hends
        cases hends with
        | undefined hnone =>
            have := (hcall none).mp hnone
            cases this
        | cons hperforms htail =>
            cases (hcall _).mp hperforms
            rw [(hrest _).mp htail]
            rfl
      · rintro rfl
        exact .cons ((hcall _).mpr rfl) ((hrest _).mpr rfl)

theorem represents_of_has (h : Has q l) : q.Represents l := by
  obtain ⟨nodes, hnodes, rfl⟩ := h
  exact hnodes.represents

end Calls

/-- **The queue refines a list.**  Every sequence of calls on a queue that has been
initialised ends, without a pointer that leads nowhere, with the answers of the same sequence
on the empty list, and the queue represents the list that comes of it. -/
theorem queue_refines_list (blocks : Blocks DataMessage) (calls : List Call) :
    ∃ q, q.Represents (onList calls []).2 ∧
      ∀ r, Ends (messageQueueInit blocks) calls r ↔ r = some ((onList calls []).1, q) := by
  have hinit : Has (messageQueueInit blocks) [] := ⟨[], nodes_init blocks, rfl⟩
  obtain ⟨q, hq, hends⟩ := ends_iff hinit calls
  exact ⟨q, represents_of_has hq, hends⟩

/-- For the number of a communicator this is what the queues of the communicators do. -/
theorem matchPattern_natCast (m : DataMessage) (comm : Nat) (source tag : Int) :
    matchPattern m comm source tag = matchMessage m comm source tag := by
  have hcomm : ((comm : Int) == (m.comm : Int)) = (comm == m.comm) := by
    rw [Bool.eq_iff_iff, beq_iff_eq, beq_iff_eq]
    exact Int.ofNat_inj
  rw [matchPattern, matchMessage, hcomm]

/-- The list on which the communicators work is the one that the queue represents. -/
theorem onList_dequeueMatching (comm : Nat) (source tag : Int) (l : List DataMessage) :
    (Call.dequeueMatching comm source tag).onList l =
      match dataMessageDequeueMatching l comm source tag with
      | none => (.message none, l)
      | some (m, l') => (.message (some m), l') := by
  simp only [Call.onList, dataMessageDequeueMatching, matchPattern_natCast]

end MessageQueues

end EsalsaMpi
