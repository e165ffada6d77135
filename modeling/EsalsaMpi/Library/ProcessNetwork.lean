import Mathlib.Algebra.Order.BigOperators.Group.Finset
import Mathlib.Logic.Relation

/-!
# Networks of sequential processes

Processes that send and receive over channels, each of which has one writer,
one reader and keeps the order.  A plan says what each process sends and
receives, action by action, and with what result it ends.

* `Follows` relates a process to its plan; it is compositional (`Follows.bind`,
  `Follows.foldlM`), so the plan of a program is put together as the program is.
* `Inv` — the channels carry what the plan has left to receive.  It holds in
  every state of every run (`inv_of_reachable`), so a process that ends has the
  result of the plan (`result_of_done`), whatever the order of the steps.
* `exists_step` — there is always a process that can go on, when the plan gives
  the channels phases, each process goes through the phases in order, and in no
  phase receives before it sends.  So every run can be completed
  (`completes`).
-/

namespace ProcessNetwork

universe u

/-- A process: what it does next, until it is done or has failed. -/
inductive Proc (χ μ α : Type*) where
  | done (a : α)
  | send (c : χ) (m : μ) (next : Proc χ μ α)
  | recv (c : χ) (next : μ → Proc χ μ α)
  | fail

/-- One communication. -/
inductive Action (χ μ : Type*) where
  | send (c : χ) (m : μ)
  | recv (c : χ) (m : μ)

namespace Action

variable {χ μ : Type*}

/-- The channel that is used. -/
def channel : Action χ μ → χ
  | .send c _ => c
  | .recv c _ => c

/-- Which of the two it is. -/
def isSend : Action χ μ → Bool
  | .send _ _ => true
  | .recv _ _ => false

/-- The message, if it is sent on `c`. -/
def sentOn [DecidableEq χ] (c : χ) : Action χ μ → Option μ
  | .send c' m => if c' = c then some m else none
  | .recv _ _ => none

/-- The message, if it is received on `c`. -/
def recvdOn [DecidableEq χ] (c : χ) : Action χ μ → Option μ
  | .recv c' m => if c' = c then some m else none
  | .send _ _ => none

end Action

namespace Proc

variable {χ μ : Type*} {α β : Type u}

/-- Go on with the result of a process. -/
protected def bind : Proc χ μ α → (α → Proc χ μ β) → Proc χ μ β
  | .done a, f => f a
  | .send c m next, f => .send c m (next.bind f)
  | .recv c next, f => .recv c fun m => (next m).bind f
  | .fail, _ => .fail

instance : Monad (Proc χ μ) where
  pure := .done
  bind := Proc.bind

/-- The value, or failure. -/
def ofOption : Option α → Proc χ μ α
  | some a => .done a
  | none => .fail

theorem ofOption_some_bind (a : α) (f : α → Proc χ μ β) : ofOption (some a) >>= f = f a := rfl

end Proc

/-- The process goes through the actions and ends with the result. -/
inductive Follows {χ μ α : Type*} : Proc χ μ α → List (Action χ μ) → α → Prop where
  | done (a : α) : Follows (.done a) [] a
  | send {c : χ} {m : μ} {next : Proc χ μ α} {tr : List (Action χ μ)} {a : α}
      (h : Follows next tr a) : Follows (.send c m next) (.send c m :: tr) a
  | recv {c : χ} {m : μ} {next : μ → Proc χ μ α} {tr : List (Action χ μ)} {a : α}
      (h : Follows (next m) tr a) : Follows (.recv c next) (.recv c m :: tr) a

namespace Follows

variable {χ μ β : Type*} {α σ : Type u} {x : Proc χ μ α} {tr tr' : List (Action χ μ)} {a : α}

theorem bind {f : α → Proc χ μ σ} {b : σ} (h : Follows x tr a) (hf : Follows (f a) tr' b) :
    Follows (x >>= f) (tr ++ tr') b := by
  induction h with
  | done a => exact hf
  | send _ ih => exact .send (ih hf)
  | recv _ ih => exact .recv (ih hf)

/-- A loop follows the plans of its rounds. -/
theorem foldlM {f : σ → β → Proc χ μ σ} {l : List β} {states : Nat → σ}
    {traces : Nat → List (Action χ μ)}
    (h : ∀ i b, l[i]? = some b → Follows (f (states i) b) (traces i) (states (i + 1))) :
    Follows (l.foldlM f (states 0)) ((List.range l.length).flatMap traces)
      (states l.length) := by
  induction l generalizing states traces with
  | nil => exact .done _
  | cons b l ih =>
      have hhead := h 0 b rfl
      have htail := @ih (fun i => states (i + 1)) (fun i => traces (i + 1))
        fun i b' hb' => h (i + 1) b' hb'
      rw [List.length_cons, List.range_succ_eq_map, List.flatMap_cons, List.flatMap_map]
      exact hhead.bind htail

/-- A loop that counts. -/
theorem foldlM_range {f : σ → Nat → Proc χ μ σ} {n : Nat} {s : σ} (states : Nat → σ)
    {traces : Nat → List (Action χ μ)} (hstart : s = states 0)
    (h : ∀ i < n, Follows (f (states i) i) (traces i) (states (i + 1))) :
    Follows ((List.range n).foldlM f s) ((List.range n).flatMap traces) (states n) := by
  have hrounds : ∀ i b, (List.range n)[i]? = some b →
      Follows (f (states i) b) (traces i) (states (i + 1)) := by
    intro i b hb
    obtain ⟨hi, rfl⟩ := List.getElem?_eq_some_iff.mp hb
    rw [List.getElem_range]
    exact h i (by simpa using hi)
  have hloop := foldlM hrounds
  rw [List.length_range] at hloop
  rwa [hstart]

/-- A process that sends a list of messages. -/
theorem foldr_send {f : β → χ} {g : β → μ} (h : Follows x tr a) (l : List β) :
    Follows (l.foldr (fun b next => .send (f b) (g b) next) x)
      (l.map (fun b => .send (f b) (g b)) ++ tr) a := by
  induction l with
  | nil => exact h
  | cons b l ih => exact .send ih

end Follows

/-- Processes and the messages on the channels. -/
structure Network (ι χ μ α : Type*) where
  procs : ι → Proc χ μ α
  queue : χ → List μ

/-- The state before any step. -/
def start {ι χ μ α : Type*} (procs : ι → Proc χ μ α) : Network ι χ μ α := ⟨procs, fun _ => []⟩

variable {ι χ μ α : Type*} [DecidableEq χ]

/-- One process sends, or receives what is first on the channel. -/
inductive Step [DecidableEq ι] : Network ι χ μ α → Network ι χ μ α → Prop where
  | send {s : Network ι χ μ α} {p : ι} {c : χ} {m : μ} {next : Proc χ μ α}
      (h : s.procs p = .send c m next) :
      Step s ⟨Function.update s.procs p next, Function.update s.queue c (s.queue c ++ [m])⟩
  | recv {s : Network ι χ μ α} {p : ι} {c : χ} {m : μ} {rest : List μ} {next : μ → Proc χ μ α}
      (h : s.procs p = .recv c next) (hqueue : s.queue c = m :: rest) :
      Step s ⟨Function.update s.procs p (next m), Function.update s.queue c rest⟩

/-- What is sent on a channel. -/
def sentOn (c : χ) (tr : List (Action χ μ)) : List μ := tr.filterMap (Action.sentOn c)

/-- What is received on a channel. -/
def recvdOn (c : χ) (tr : List (Action χ μ)) : List μ := tr.filterMap (Action.recvdOn c)

/-- An action comes before another in a process that takes the phases in order and
sends before it receives. -/
def InPhase (phase : χ → Nat) (a b : Action χ μ) : Prop :=
  phase a.channel ≤ phase b.channel ∧
    match a, b with
    | .recv _ _, .send _ _ => phase a.channel < phase b.channel
    | _, _ => True

/-- A plan for a network: who writes and reads each channel, the phases, and what
each process does and ends with. -/
structure Plan (ι χ μ α : Type*) where
  writer : χ → ι
  reader : χ → ι
  phase : χ → Nat
  trace : ι → List (Action χ μ)
  result : ι → α

/-- The plan keeps to the writers and readers, what is sent on a channel is what
is received, and the phases are in order. -/
structure Plan.Sound (plan : Plan ι χ μ α) : Prop where
  writer : ∀ p c m, .send c m ∈ plan.trace p → plan.writer c = p
  reader : ∀ p c m, .recv c m ∈ plan.trace p → plan.reader c = p
  balanced : ∀ c, sentOn c (plan.trace (plan.writer c)) =
    recvdOn c (plan.trace (plan.reader c))
  phases : ∀ p, (plan.trace p).Pairwise (InPhase plan.phase)

/-- **A state in a run that keeps to the plan**: what the plan has left, and on
each channel what is left to receive but not to send. -/
structure Inv (plan : Plan ι χ μ α) (left : ι → List (Action χ μ)) (s : Network ι χ μ α) :
    Prop where
  follows : ∀ p, Follows (s.procs p) (left p) (plan.result p)
  writer : ∀ p c m, .send c m ∈ left p → plan.writer c = p
  reader : ∀ p c m, .recv c m ∈ left p → plan.reader c = p
  balanced : ∀ c, s.queue c ++ sentOn c (left (plan.writer c)) =
    recvdOn c (left (plan.reader c))
  phases : ∀ p, (left p).Pairwise (InPhase plan.phase)

section Loads

variable {plan : Plan ι χ μ α} {load : χ → List μ} {tr : List (Action χ μ)} {c : χ} {m : μ}

theorem mem_sentOn (h : .send c m ∈ tr) : m ∈ sentOn c tr :=
  List.mem_filterMap.mpr ⟨_, h, if_pos rfl⟩

theorem mem_recvdOn (h : .recv c m ∈ tr) : m ∈ recvdOn c tr :=
  List.mem_filterMap.mpr ⟨_, h, if_pos rfl⟩

/-- A plan is sound when each channel has a load, which its writer sends and its
reader receives. -/
theorem sound_of_load [DecidableEq ι]
    (hsent : ∀ p c, sentOn c (plan.trace p) = if plan.writer c = p then load c else [])
    (hrecvd : ∀ p c, recvdOn c (plan.trace p) = if plan.reader c = p then load c else [])
    (hphases : ∀ p, (plan.trace p).Pairwise (InPhase plan.phase)) : plan.Sound where
  writer p c m hm := by
    by_contra hne
    have hmem := mem_sentOn hm
    rw [hsent, if_neg hne] at hmem
    cases hmem
  reader p c m hm := by
    by_contra hne
    have hmem := mem_recvdOn hm
    rw [hrecvd, if_neg hne] at hmem
    cases hmem
  balanced c := by rw [hsent, hrecvd, if_pos rfl, if_pos rfl]
  phases := hphases

theorem sentOn_append (c : χ) (tr tr' : List (Action χ μ)) :
    sentOn c (tr ++ tr') = sentOn c tr ++ sentOn c tr' :=
  List.filterMap_append

theorem recvdOn_append (c : χ) (tr tr' : List (Action χ μ)) :
    recvdOn c (tr ++ tr') = recvdOn c tr ++ recvdOn c tr' :=
  List.filterMap_append

theorem sentOn_flatMap {β : Type*} (c : χ) (l : List β) (f : β → List (Action χ μ)) :
    sentOn c (l.flatMap f) = l.flatMap fun b => sentOn c (f b) :=
  List.filterMap_flatMap

theorem recvdOn_flatMap {β : Type*} (c : χ) (l : List β) (f : β → List (Action χ μ)) :
    recvdOn c (l.flatMap f) = l.flatMap fun b => recvdOn c (f b) :=
  List.filterMap_flatMap

theorem sentOn_of_notMem (h : ∀ a ∈ tr, a.channel ≠ c) : sentOn c tr = [] := by
  apply List.filterMap_eq_nil_iff.mpr
  intro a ha
  cases a with
  | send c' m => exact if_neg (h _ ha)
  | recv c' m => rfl

theorem recvdOn_of_notMem (h : ∀ a ∈ tr, a.channel ≠ c) : recvdOn c tr = [] := by
  apply List.filterMap_eq_nil_iff.mpr
  intro a ha
  cases a with
  | send c' m => rfl
  | recv c' m => exact if_neg (h _ ha)

section Guarded

variable {c' : χ} {p : Prop} [Decidable p]

@[simp] theorem sentOn_ite_send :
    sentOn c (if p then [.send c' m] else []) = if p ∧ c' = c then [m] else [] := by
  by_cases hp : p <;> by_cases hc : c' = c <;> simp [sentOn, Action.sentOn, hp, hc]

@[simp] theorem recvdOn_ite_recv :
    recvdOn c (if p then [.recv c' m] else []) = if p ∧ c' = c then [m] else [] := by
  by_cases hp : p <;> by_cases hc : c' = c <;> simp [recvdOn, Action.recvdOn, hp, hc]

@[simp] theorem sentOn_ite_recv : sentOn c (if p then [.recv c' m] else []) = [] := by
  split <;> rfl

@[simp] theorem recvdOn_ite_send : recvdOn c (if p then [.send c' m] else []) = [] := by
  split <;> rfl

@[simp] theorem sentOn_send : sentOn c [.send c' m] = if c' = c then [m] else [] := by
  by_cases hc : c' = c <;> simp [sentOn, Action.sentOn, hc]

@[simp] theorem recvdOn_recv : recvdOn c [.recv c' m] = if c' = c then [m] else [] := by
  by_cases hc : c' = c <;> simp [recvdOn, Action.recvdOn, hc]

end Guarded

theorem map_filter_eq_flatMap {β γ : Type*} (q : β → Prop) [DecidablePred q] (f : β → γ)
    (l : List β) : (l.filter q).map f = l.flatMap fun b => if q b then [f b] else [] := by
  induction l with
  | nil => rfl
  | cons b l ih =>
      by_cases hb : q b
      · simp [hb, ih]
      · simp [hb, ih]

/-- Of a loop in which one round matters, this round is left. -/
theorem flatMap_single {β γ : Type*} {f : β → List γ} {l : List β} [DecidableEq β] (k : β)
    (hl : l.Nodup) (h : ∀ i ∈ l, i ≠ k → f i = []) : l.flatMap f = if k ∈ l then f k else [] := by
  induction l with
  | nil => rfl
  | cons a l ih =>
      obtain ⟨ha, hl⟩ := List.nodup_cons.mp hl
      rw [List.flatMap_cons, ih hl fun i hi => h i (List.mem_cons_of_mem a hi)]
      by_cases hka : k = a
      · subst hka
        simp [ha]
      · rw [h a List.mem_cons_self (Ne.symm hka)]
        simp [hka]

theorem flatMap_range_single {β : Type*} {f : Nat → List β} {n : Nat} (k : Nat)
    (h : ∀ i < n, i ≠ k → f i = []) :
    (List.range n).flatMap f = if k < n then f k else [] := by
  rw [flatMap_single k List.nodup_range fun i hi => h i (List.mem_range.mp hi)]
  exact if_congr List.mem_range rfl rfl

end Loads

section Phases

variable {phase : χ → Nat} {a b : Action χ μ}

omit [DecidableEq χ] in
/-- An action of an earlier phase comes first. -/
theorem inPhase_of_lt (h : phase a.channel < phase b.channel) : InPhase phase a b := by
  refine ⟨h.le, ?_⟩
  cases a with
  | send _ _ => trivial
  | recv _ _ =>
      cases b with
      | send _ _ => exact h
      | recv _ _ => trivial

omit [DecidableEq χ] in
/-- Sends of one phase, or receives of one phase, may come in any order. -/
theorem pairwise_inPhase {tr : List (Action χ μ)} {k : Nat} {kind : Bool}
    (h : ∀ a ∈ tr, phase a.channel = k ∧ a.isSend = kind) : tr.Pairwise (InPhase phase) := by
  apply List.pairwise_of_forall_mem_list
  intro a ha b hb
  obtain ⟨hphase, hkind⟩ := h a ha
  obtain ⟨hphase', hkind'⟩ := h b hb
  refine ⟨(hphase.trans hphase'.symm).le, ?_⟩
  cases a with
  | send _ _ => trivial
  | recv _ _ =>
      cases b with
      | send _ _ => cases hkind.trans hkind'.symm
      | recv _ _ => trivial

end Phases

theorem inv_start {plan : Plan ι χ μ α} (hplan : plan.Sound) {procs : ι → Proc χ μ α}
    (h : ∀ p, Follows (procs p) (plan.trace p) (plan.result p)) :
    Inv plan plan.trace (start procs) :=
  ⟨h, hplan.writer, hplan.reader, fun c => (List.nil_append _).trans (hplan.balanced c),
    hplan.phases⟩

section Steps

theorem sentOn_cons (c : χ) (a : Action χ μ) (tr : List (Action χ μ)) :
    sentOn c (a :: tr) = (a.sentOn c).toList ++ sentOn c tr := by
  cases h : a.sentOn c <;> simp [sentOn, h]

theorem recvdOn_cons (c : χ) (a : Action χ μ) (tr : List (Action χ μ)) :
    recvdOn c (a :: tr) = (a.recvdOn c).toList ++ recvdOn c tr := by
  cases h : a.recvdOn c <;> simp [recvdOn, h]

variable {plan : Plan ι χ μ α} {left : ι → List (Action χ μ)} {s s' : Network ι χ μ α}

/-- What a process ends with is the result of the plan. -/
theorem result_of_done (h : Inv plan left s) {p : ι} {a : α} (hp : s.procs p = .done a) :
    a = plan.result p := by
  have hfollows := h.follows p
  rw [hp] at hfollows
  generalize left p = tr at hfollows
  cases hfollows
  rfl

/-- A process with nothing left is done. -/
theorem done_of_left (h : Inv plan left s) {p : ι} (hp : left p = []) :
    s.procs p = .done (plan.result p) := by
  have hfollows := h.follows p
  rw [hp] at hfollows
  generalize s.procs p = x at hfollows
  cases hfollows
  rfl

variable [DecidableEq ι]

/-- A process that takes an action has the rest of its plan left. -/
theorem Inv.update (h : Inv plan left s) {p : ι} {a : Action χ μ} {tr : List (Action χ μ)}
    {next : Proc χ μ α} (hleft : left p = a :: tr) (hnext : Follows next tr (plan.result p))
    {queue : χ → List μ}
    (hqueue : ∀ c, queue c ++ sentOn c (Function.update left p tr (plan.writer c)) =
      recvdOn c (Function.update left p tr (plan.reader c))) :
    Inv plan (Function.update left p tr) ⟨Function.update s.procs p next, queue⟩ := by
  have hsub : ∀ q, (Function.update left p tr q).Sublist (left q) := by
    intro q
    by_cases hq : q = p
    · subst hq
      rw [Function.update_self, hleft]
      exact List.sublist_cons_self a tr
    · rw [Function.update_of_ne hq]
  refine ⟨?_, fun q c m hm => h.writer q c m ((hsub q).subset hm),
    fun q c m hm => h.reader q c m ((hsub q).subset hm), hqueue,
    fun q => (h.phases q).sublist (hsub q)⟩
  intro q
  by_cases hq : q = p
  · subst hq
    show Follows (Function.update s.procs q next q) _ _
    rw [Function.update_self, Function.update_self]
    exact hnext
  · show Follows (Function.update s.procs p next q) _ _
    rw [Function.update_of_ne hq, Function.update_of_ne hq]
    exact h.follows q

/-- **One step** takes one action off what is left. -/
theorem inv_step (h : Inv plan left s) (hstep : Step s s') :
    ∃ p a tr, left p = a :: tr ∧ Inv plan (Function.update left p tr) s' := by
  cases hstep with
  | @send p c m next hp =>
      have hfollows := h.follows p
      rw [hp] at hfollows
      cases hl : left p with
      | nil =>
          rw [hl] at hfollows
          cases hfollows
      | cons a tr =>
          rw [hl] at hfollows
          cases hfollows with
          | send hnext =>
              refine ⟨p, _, tr, hl, h.update hl hnext ?_⟩
              have hwriter : plan.writer c = p := h.writer p c m (hl ▸ List.mem_cons_self)
              have hsent : ∀ q c', sentOn c' (left q) =
                  (if c' = c ∧ q = p then [m] else []) ++
                    sentOn c' (Function.update left p tr q) := by
                intro q c'
                by_cases hq : q = p
                · subst hq
                  rw [Function.update_self, hl, sentOn_cons]
                  by_cases hc : c' = c
                  · simp [Action.sentOn, hc]
                  · simp [Action.sentOn, hc, Ne.symm hc]
                · simp [hq]
              have hrecvd : ∀ q c', recvdOn c' (Function.update left p tr q) =
                  recvdOn c' (left q) := by
                intro q c'
                by_cases hq : q = p
                · subst hq
                  rw [Function.update_self, hl, recvdOn_cons]
                  simp [Action.recvdOn]
                · rw [Function.update_of_ne hq]
              intro c'
              rw [hrecvd, ← h.balanced c', hsent]
              by_cases hc : c' = c
              · subst hc
                simp [hwriter]
              · simp [hc]
  | @recv p c m rest next hp hqueue =>
      have hfollows := h.follows p
      rw [hp] at hfollows
      cases hl : left p with
      | nil =>
          rw [hl] at hfollows
          cases hfollows
      | cons a tr =>
          rw [hl] at hfollows
          cases hfollows with
          | @recv _ m' _ _ _ hnext =>
              have hreader : plan.reader c = p := h.reader p c m' (hl ▸ List.mem_cons_self)
              have hrecvd : ∀ q c', recvdOn c' (left q) =
                  (if c' = c ∧ q = p then [m'] else []) ++
                    recvdOn c' (Function.update left p tr q) := by
                intro q c'
                by_cases hq : q = p
                · subst hq
                  rw [Function.update_self, hl, recvdOn_cons]
                  by_cases hc : c' = c
                  · simp [Action.recvdOn, hc]
                  · simp [Action.recvdOn, hc, Ne.symm hc]
                · simp [hq]
              have hsent : ∀ q c', sentOn c' (Function.update left p tr q) =
                  sentOn c' (left q) := by
                intro q c'
                by_cases hq : q = p
                · subst hq
                  rw [Function.update_self, hl, sentOn_cons]
                  simp [Action.sentOn]
                · rw [Function.update_of_ne hq]
              -- what comes first on the channel is what the plan receives next
              have hfirst := h.balanced c
              rw [hqueue, hrecvd, if_pos ⟨rfl, hreader⟩] at hfirst
              obtain ⟨rfl, hrest⟩ := List.cons.inj hfirst
              refine ⟨p, _, tr, hl, h.update hl hnext ?_⟩
              intro c'
              rw [hsent]
              by_cases hc : c' = c
              · subst hc
                rw [Function.update_self]
                exact hrest
              · rw [Function.update_of_ne hc, h.balanced c', hrecvd]
                simp [hc]

/-- **No deadlock.**  While anything is left, some process can go on: one whose
next action has the least phase, or the writer it waits for. -/
theorem exists_step (h : Inv plan left s) {q : ι} (hq : left q ≠ []) : ∃ s', Step s s' := by
  have hphase : ∃ n, ∃ p a tr, left p = a :: tr ∧ plan.phase a.channel = n := by
    obtain ⟨a, tr, hl⟩ := List.exists_cons_of_ne_nil hq
    exact ⟨_, q, a, tr, hl, rfl⟩
  classical
  obtain ⟨p, a, tr, hl, hn⟩ := Nat.find_spec hphase
  have hleast : ∀ p' a' tr', left p' = a' :: tr' →
      plan.phase a.channel ≤ plan.phase a'.channel := by
    intro p' a' tr' hl'
    rw [hn]
    exact Nat.find_min' hphase ⟨p', a', tr', hl', rfl⟩
  have hsends : ∀ p' c m tr', left p' = .send c m :: tr' → ∃ s', Step s s' := by
    intro p' c m tr' hl'
    have hfollows := h.follows p'
    rw [hl'] at hfollows
    generalize hx : s.procs p' = x at hfollows
    cases hfollows with
    | send _ => exact ⟨_, .send hx⟩
  cases a with
  | send c m => exact hsends p c m tr hl
  | recv c m =>
      have hfollows := h.follows p
      rw [hl] at hfollows
      generalize hx : s.procs p = x at hfollows
      cases hfollows with
      | recv _ =>
          cases hqueue : s.queue c with
          | cons m' rest => exact ⟨_, .recv hx hqueue⟩
          | nil =>
              -- the message is still to be sent, by a process that sends first
              have hreader : plan.reader c = p := h.reader p c m (hl ▸ List.mem_cons_self)
              have hbalanced := h.balanced c
              rw [hqueue, List.nil_append, hreader, hl, recvdOn_cons] at hbalanced
              have hmem : m ∈ sentOn c (left (plan.writer c)) := by
                rw [hbalanced]
                simp [Action.recvdOn]
              obtain ⟨b, hb, hsent⟩ := List.mem_filterMap.mp hmem
              have hb' : b = .send c m := by
                cases b with
                | recv c' m' => cases hsent
                | send c' m' =>
                    obtain ⟨rfl, heq⟩ := Option.ite_none_right_eq_some.mp hsent
                    cases heq
                    rfl
              subst hb'
              cases hw : left (plan.writer c) with
              | nil =>
                  rw [hw] at hb
                  cases hb
              | cons a' tr' =>
                  cases a' with
                  | send c' m' => exact hsends _ c' m' tr' hw
                  | recv c' m' =>
                      rw [hw] at hb
                      rcases List.mem_cons.mp hb with hhead | htail
                      · cases hhead
                      · have hpair := h.phases (plan.writer c)
                        rw [hw] at hpair
                        have hlt := ((List.pairwise_cons.mp hpair).1 _ htail).2
                        have hle := hleast _ _ _ hw
                        exact absurd hlt (Nat.not_lt.mpr hle)

/-- The states that a run from `s` reaches keep to the plan. -/
theorem inv_of_reachable (h : Inv plan left s) (hrun : Relation.ReflTransGen Step s s') :
    ∃ left', Inv plan left' s' := by
  induction hrun with
  | refl => exact ⟨left, h⟩
  | tail _ hstep ih =>
      obtain ⟨left', h'⟩ := ih
      obtain ⟨p, _, tr, _, hinv⟩ := inv_step h' hstep
      exact ⟨_, hinv⟩

/-- **Every run can be completed**, and ends with the results of the plan. -/
theorem completes [Fintype ι] (h : Inv plan left s) :
    ∃ s', Relation.ReflTransGen Step s s' ∧ ∀ p, s'.procs p = .done (plan.result p) := by
  induction hn : ∑ p, (left p).length using Nat.strong_induction_on generalizing left s with
  | _ n ih =>
      by_cases hdone : ∀ p, left p = []
      · exact ⟨s, .refl, fun p => done_of_left h (hdone p)⟩
      · obtain ⟨q, hq⟩ := not_forall.mp hdone
        obtain ⟨s₁, hstep⟩ := exists_step h hq
        obtain ⟨p, a, tr, hl, hinv⟩ := inv_step h hstep
        have hlt : ∑ p', (Function.update left p tr p').length < n := by
          rw [← hn]
          apply Finset.sum_lt_sum
          · intro p' _
            by_cases hp' : p' = p
            · subst hp'
              simp [hl]
            · rw [Function.update_of_ne hp']
          · exact ⟨p, Finset.mem_univ p, by simp [hl]⟩
        obtain ⟨s', hrun, hresult⟩ := ih _ hlt hinv rfl
        exact ⟨s', .head hstep hrun, hresult⟩

end Steps

end ProcessNetwork
