import EsalsaMpi.Library.ProcessNetwork

/-!
# Choreographies

In a network whose channels have one writer and one reader each, the order of
the steps does not matter: if some run completes, every run can be completed,
and in the same way (`completes_of_run`).  So it is enough to give one run.

A choreography gives it.  It is a list of blocks of messages; in each block
the processes first send their messages and then receive theirs
(`Performs`).  Where each block is a single message, no process has to send
before the receiver is there, and every run can be completed without buffering a
further message (`Performs.meets`).
-/

namespace ProcessNetwork

universe u

open Relation

section Keeping

variable {χ μ β : Type*} {α σ : Type u}

/-- A process that takes no step any more. -/
def Proc.Stopped : Proc χ μ α → Prop
  | .done _ => True
  | .fail => True
  | _ => False

/-- A process that sends and receives only what it may. -/
inductive Keeps (maySend : χ → μ → Prop) (mayReceive : χ → Prop) : Proc χ μ α → Prop where
  | done (a : α) : Keeps maySend mayReceive (.done a)
  | send {c : χ} {m : μ} {next : Proc χ μ α} (hmay : maySend c m)
      (hnext : Keeps maySend mayReceive next) : Keeps maySend mayReceive (.send c m next)
  | recv {c : χ} {next : μ → Proc χ μ α} (hmay : mayReceive c)
      (hnext : ∀ m, Keeps maySend mayReceive (next m)) : Keeps maySend mayReceive (.recv c next)
  | fail : Keeps maySend mayReceive .fail

namespace Keeps

variable {maySend maySend' : χ → μ → Prop} {mayReceive mayReceive' : χ → Prop} {x : Proc χ μ α}

theorem bind {f : α → Proc χ μ σ} (h : Keeps maySend mayReceive x)
    (hf : ∀ a, Keeps maySend mayReceive (f a)) : Keeps maySend mayReceive (x >>= f) := by
  induction h with
  | done a => exact hf a
  | send hmay _ ih => exact .send hmay ih
  | recv hmay _ ih => exact .recv hmay ih
  | fail => exact .fail

theorem ofOption (o : Option α) : Keeps maySend mayReceive (.ofOption o) := by
  cases o with
  | none => exact .fail
  | some a => exact .done a

theorem foldlM {f : σ → β → Proc χ μ σ} {l : List β}
    (h : ∀ s, ∀ b ∈ l, Keeps maySend mayReceive (f s b)) (s : σ) :
    Keeps maySend mayReceive (l.foldlM f s) := by
  induction l generalizing s with
  | nil => exact .done s
  | cons b l ih =>
      rw [List.foldlM_cons]
      exact (h s b List.mem_cons_self).bind fun s' =>
        ih (fun s'' b' hb' => h s'' b' (List.mem_cons_of_mem b hb')) s'

theorem imp (h : Keeps maySend mayReceive x) (hsend : ∀ c m, maySend c m → maySend' c m)
    (hreceive : ∀ c, mayReceive c → mayReceive' c) : Keeps maySend' mayReceive' x := by
  induction h with
  | done a => exact .done a
  | send hmay _ ih => exact .send (hsend _ _ hmay) ih
  | recv hmay _ ih => exact .recv (hreceive _ hmay) ih
  | fail => exact .fail

end Keeps

/-- A process that is never done, whatever it receives. -/
inductive Doomed : Proc χ μ α → Prop where
  | send {c : χ} {m : μ} {next : Proc χ μ α} (hnext : Doomed next) : Doomed (.send c m next)
  | recv {c : χ} {next : μ → Proc χ μ α} (hnext : ∀ m, Doomed (next m)) : Doomed (.recv c next)
  | fail : Doomed .fail

namespace Doomed

variable {x : Proc χ μ α}

theorem bind (h : Doomed x) (f : α → Proc χ μ σ) : Doomed (x >>= f) := by
  induction h with
  | send _ ih => exact .send ih
  | recv _ ih => exact .recv ih
  | fail => exact .fail

theorem of_bind (x : Proc χ μ α) {f : α → Proc χ μ σ} (h : ∀ a, Doomed (f a)) :
    Doomed (x >>= f) := by
  induction x with
  | done a => exact h a
  | send c m next ih => exact .send ih
  | recv c next ih => exact .recv ih
  | fail => exact .fail

/-- One round of a loop is enough. -/
theorem foldlM {f : σ → β → Proc χ μ σ} {l : List β} {b : β} (hb : b ∈ l)
    (h : ∀ s, Doomed (f s b)) (s : σ) : Doomed (l.foldlM f s) := by
  induction l generalizing s with
  | nil => cases hb
  | cons b' l ih =>
      rw [List.foldlM_cons]
      rcases List.mem_cons.mp hb with rfl | hb
      · exact (h s).bind _
      · exact of_bind _ fun s' => ih hb s'

end Doomed

/-- Whatever the process receives, it ends with a value in `S`, if at all. -/
inductive Yields (S : Set α) : Proc χ μ α → Prop where
  | done {a : α} (h : a ∈ S) : Yields S (.done a)
  | send {c : χ} {m : μ} {next : Proc χ μ α} (hnext : Yields S next) : Yields S (.send c m next)
  | recv {c : χ} {next : μ → Proc χ μ α} (hnext : ∀ m, Yields S (next m)) :
      Yields S (.recv c next)
  | fail : Yields S .fail

namespace Yields

variable {x : Proc χ μ α} {S : Set α} {T : Set σ}

theorem bind {f : α → Proc χ μ σ} (h : Yields S x) (hf : ∀ a ∈ S, Yields T (f a)) :
    Yields T (x >>= f) := by
  induction h with
  | done ha => exact hf _ ha
  | send _ ih => exact .send ih
  | recv _ ih => exact .recv ih
  | fail => exact .fail

end Yields

end Keeping

/-- A loop whose rounds do the same whatever the state. -/
theorem Follows.foldlM_flatMap {χ μ β : Type*} {σ : Type u} {f : σ → β → Proc χ μ σ}
    {g : σ → β → σ} {t : β → List (Action χ μ)} {l : List β}
    (h : ∀ s, ∀ b ∈ l, Follows (f s b) (t b) (g s b)) (s : σ) :
    Follows (l.foldlM f s) (l.flatMap t) (l.foldl g s) := by
  induction l generalizing s with
  | nil => exact .done s
  | cons b l ih =>
      rw [List.foldlM_cons, List.flatMap_cons]
      exact (h s b List.mem_cons_self).bind
        (ih (fun s' b' hb' => h s' b' (List.mem_cons_of_mem b hb')) (g s b))

/-- A loop that leaves its state as it is. -/
theorem Follows.foldlM_const {χ μ β : Type*} {σ : Type u} {f : σ → β → Proc χ μ σ}
    {tr : β → List (Action χ μ)} {l : List β} {s : σ} (h : ∀ b ∈ l, Follows (f s b) (tr b) s) :
    Follows (l.foldlM f s) (l.flatMap tr) s := by
  induction l with
  | nil => exact .done s
  | cons b l ih =>
      rw [List.foldlM_cons, List.flatMap_cons]
      exact (h b List.mem_cons_self).bind (ih fun b' hb' => h b' (List.mem_cons_of_mem b hb'))

/-- A loop that counts through a list, with an invariant of its state. -/
theorem Follows.foldlM_index {χ μ β : Type*} {σ : Type u} {f : σ → Nat → Proc χ μ σ}
    {g : σ → β → σ} {tr : β → List (Action χ μ)} {P : σ → Prop} {l : List β} {s : σ}
    (h : ∀ s i b, P s → l[i]? = some b → Follows (f s i) (tr b) (g s b) ∧ P (g s b)) (hs : P s) :
    Follows ((List.range l.length).foldlM f s) (l.flatMap tr) (l.foldl g s) := by
  induction l generalizing f s with
  | nil => exact .done s
  | cons b l ih =>
      obtain ⟨hfirst, hs'⟩ := h s 0 b hs rfl
      rw [List.length_cons, List.range_succ_eq_map, List.foldlM_cons, List.flatMap_cons]
      refine hfirst.bind ?_
      rw [List.foldlM_map]
      exact ih (fun s' i b' hs' hb' => h s' (i + 1) b' hs' hb') hs'

variable {ι χ μ : Type*} {α : Type u} {writer reader : χ → ι}

/-- Every process keeps to the channels it writes and those it reads. -/
def Owned (writer reader : χ → ι) (s : Network ι χ μ α) : Prop :=
  ∀ p, Keeps (fun c _ => writer c = p) (fun c => reader c = p) (s.procs p)

variable [DecidableEq ι] [DecidableEq χ] {s s' t : Network ι χ μ α}

/-- The network after a process has used a channel. -/
def Network.put (s : Network ι χ μ α) (p : ι) (x : Proc χ μ α) (c : χ) (l : List μ) :
    Network ι χ μ α := ⟨Function.update s.procs p x, Function.update s.queue c l⟩

/-- A process can use a channel, by a send or a receive: it goes on as `x`, and the
channel then holds `l`. -/
inductive Use (s : Network ι χ μ α) : Bool → ι → χ → Proc χ μ α → List μ → Prop where
  | send {p : ι} {c : χ} {m : μ} {next : Proc χ μ α} (hp : s.procs p = .send c m next) :
      Use s true p c next (s.queue c ++ [m])
  | recv {p : ι} {c : χ} {m : μ} {rest : List μ} {next : μ → Proc χ μ α}
      (hp : s.procs p = .recv c next) (hqueue : s.queue c = m :: rest) :
      Use s false p c (next m) rest

/-- A message is handed over: it is received from its channel, or right from the
sender. -/
inductive Meeting : Network ι χ μ α → Network ι χ μ α → Prop where
  | recv {s : Network ι χ μ α} {p : ι} {c : χ} {x : Proc χ μ α} {l : List μ}
      (h : Use s false p c x l) : Meeting s (s.put p x c l)
  | meet {s : Network ι χ μ α} {p q : ι} {c : χ} {m : μ} {next : Proc χ μ α}
      {next' : μ → Proc χ μ α} (hp : s.procs p = .send c m next) (hq : s.procs q = .recv c next')
      (hqueue : s.queue c = []) : Meeting s ((s.put p next c [m]).put q (next' m) c [])

section Put

variable {p q : ι} {x y : Proc χ μ α} {c d : χ} {l l' : List μ} {k k' : Bool}

@[simp] theorem put_procs_self : (s.put p x c l).procs p = x := Function.update_self _ _ _

@[simp] theorem put_procs_ne (h : q ≠ p) : (s.put p x c l).procs q = s.procs q :=
  Function.update_of_ne h _ _

@[simp] theorem put_queue_self : (s.put p x c l).queue c = l := Function.update_self _ _ _

@[simp] theorem put_queue_ne (h : d ≠ c) : (s.put p x c l).queue d = s.queue d :=
  Function.update_of_ne h _ _

theorem put_comm (hpq : p ≠ q) (hcd : c ≠ d) :
    (s.put p x c l).put q y d l' = (s.put q y d l').put p x c l := by
  simp only [Network.put, Function.update_comm hpq, Function.update_comm hcd]

theorem put_put (hpq : p ≠ q) (l'' : List μ) :
    (s.put p x c l).put q y c l' = (s.put q y c l'').put p x c l' := by
  simp only [Network.put, Function.update_comm hpq, Function.update_idem]

theorem step_iff : Step s t ↔ ∃ k p c x l, Use s k p c x l ∧ t = s.put p x c l := by
  constructor
  · intro h
    cases h with
    | send hp => exact ⟨_, _, _, _, _, .send hp, rfl⟩
    | recv hp hqueue => exact ⟨_, _, _, _, _, .recv hp hqueue, rfl⟩
  · rintro ⟨k, p, c, x, l, h, rfl⟩
    cases h with
    | send hp => exact .send hp
    | recv hp hqueue => exact .recv hp hqueue

theorem Use.step (h : Use s k p c x l) : Step s (s.put p x c l) := step_iff.mpr ⟨_, _, _, _, _, h, rfl⟩

omit [DecidableEq ι] [DecidableEq χ] in
/-- A process can go on in one way only. -/
theorem Use.unique (h : Use s k p c x l) (h' : Use s k' p d y l') :
    k = k' ∧ c = d ∧ x = y ∧ l = l' := by
  cases h with
  | send hp =>
      cases h' with
      | send hp' =>
          cases hp.symm.trans hp'
          exact ⟨rfl, rfl, rfl, rfl⟩
      | recv hp' hqueue' => cases hp.symm.trans hp'
  | recv hp hqueue =>
      cases h' with
      | send hp' => cases hp.symm.trans hp'
      | recv hp' hqueue' =>
          cases hp.symm.trans hp'
          cases hqueue.symm.trans hqueue'
          exact ⟨rfl, rfl, rfl, rfl⟩

/-- What a process can do on a channel that others leave alone. -/
theorem Use.put (h : Use s k q d y l') (hpq : p ≠ q) (hcd : c ≠ d) :
    Use (s.put p x c l) k q d y l' := by
  cases h with
  | @send _ _ m next hp =>
      rw [← put_queue_ne (p := p) (x := x) (l := l) (Ne.symm hcd)]
      exact .send (by rw [put_procs_ne (Ne.symm hpq), hp])
  | recv hp hqueue =>
      exact .recv (by rw [put_procs_ne (Ne.symm hpq), hp])
        (by rw [put_queue_ne (Ne.symm hcd), hqueue])

/-- A send leaves what another process can receive. -/
theorem Use.put_send (h : Use s true p c x l) (h' : Use s false q c y l') (hpq : p ≠ q) :
    ∃ l'', Use (s.put p x c l) false q c y l'' ∧ Use (s.put q y c l') true p c x l'' := by
  cases h with
  | @send _ _ m next hp =>
      cases h' with
      | @recv _ _ m' rest next' hq hqueue =>
          refine ⟨l' ++ [m], .recv ?_ ?_, ?_⟩
          · rw [put_procs_ne (Ne.symm hpq), hq]
          · rw [put_queue_self, hqueue]
            rfl
          · have hsend := @Use.send _ _ _ _ (s.put q (next' m') c l') p c m x
              (by rw [put_procs_ne hpq, hp])
            rwa [put_queue_self] at hsend

end Put

section Order

variable {p q : ι} {x y : Proc χ μ α} {c d : χ} {l l' : List μ} {k k' : Bool}

omit [DecidableEq χ] in
theorem Owned.update (h : Owned writer reader s) {queue : χ → List μ}
    (hx : Keeps (fun c _ => writer c = p) (fun c => reader c = p) x) :
    Owned writer reader ⟨Function.update s.procs p x, queue⟩ := by
  intro q
  by_cases hq : q = p
  · subst hq
    simpa using hx
  · simpa [hq] using h q

omit [DecidableEq ι] [DecidableEq χ] in
/-- A process sends where it is the writer, and receives where it is the reader. -/
theorem Owned.owner (h : Owned writer reader s) (huse : Use s k p c x l) :
    (if k then writer c else reader c) = p ∧
      Keeps (fun c _ => writer c = p) (fun c => reader c = p) x := by
  have hkeeps := h p
  cases huse with
  | send hp =>
      rw [hp] at hkeeps
      cases hkeeps with
      | send hmay hnext => exact ⟨hmay, hnext⟩
  | recv hp hqueue =>
      rw [hp] at hkeeps
      cases hkeeps with
      | recv hmay hnext => exact ⟨hmay, hnext _⟩

theorem Owned.step (h : Owned writer reader s) (hstep : Step s t) : Owned writer reader t := by
  obtain ⟨k, p, c, x, l, huse, rfl⟩ := step_iff.mp hstep
  exact h.update (h.owner huse).2

theorem Owned.steps (h : Owned writer reader s) (hrun : ReflTransGen Step s t) :
    Owned writer reader t := by
  induction hrun with
  | refl => exact h
  | tail _ hstep ih => exact ih.step hstep

/-- **Two processes do not disturb each other.** -/
theorem Owned.commutes (h : Owned writer reader s) (hp : Use s k p c x l)
    (hq : Use s k' q d y l') (hpq : p ≠ q) :
    ∃ l₁ l₂, Use (s.put p x c l) k' q d y l₁ ∧ Use (s.put q y d l') k p c x l₂ ∧
      (s.put p x c l).put q y d l₁ = (s.put q y d l').put p x c l₂ := by
  by_cases hcd : c = d
  · subst hcd
    have howner := (h.owner hp).1
    have howner' := (h.owner hq).1
    cases k with
    | false =>
        cases k' with
        | false => exact absurd (howner.symm.trans howner') hpq
        | true =>
            obtain ⟨l'', hp', hq'⟩ := hq.put_send hp (Ne.symm hpq)
            exact ⟨l'', l'', hq', hp', put_put hpq _⟩
    | true =>
        cases k' with
        | false =>
            obtain ⟨l'', hq', hp'⟩ := hp.put_send hq hpq
            exact ⟨l'', l'', hq', hp', put_put hpq _⟩
        | true => exact absurd (howner.symm.trans howner') hpq
  · exact ⟨l', l, hq.put hpq hcd, hp.put (Ne.symm hpq) (Ne.symm hcd), put_comm hpq hcd⟩

/-- **Two steps from one state** lead to one state again. -/
theorem Owned.diamond (h : Owned writer reader s) (hs : Step s s') (ht : Step s t) :
    ∃ u, ReflTransGen Step s' u ∧ ReflGen Step t u := by
  obtain ⟨k, p, c, x, l, hp, rfl⟩ := step_iff.mp hs
  obtain ⟨k', q, d, y, l', hq, rfl⟩ := step_iff.mp ht
  by_cases hpq : p = q
  · subst hpq
    obtain ⟨_, rfl, rfl, rfl⟩ := hp.unique hq
    exact ⟨_, .refl, .refl⟩
  · obtain ⟨l₁, l₂, hq', hp', heq⟩ := h.commutes hp hq hpq
    refine ⟨_, .single hq'.step, ?_⟩
    rw [heq]
    exact .single hp'.step

/-- A meeting is a send and a receive. -/
theorem Meeting.steps (h : Meeting s t) : ReflTransGen Step s t := by
  cases h with
  | recv h => exact .single h.step
  | @meet p q c m next next' hp hq hqueue =>
      have hne : q ≠ p := by
        rintro rfl
        cases hp.symm.trans hq
      have hsend : Use s true p c next [m] := by
        have huse := Use.send hp
        rwa [hqueue] at huse
      have hrecv : Use (s.put p next c [m]) false q c (next' m) [] :=
        .recv (by rw [put_procs_ne hne, hq]) put_queue_self
      exact .head hsend.step (.single hrecv.step)

/-- **A step and a meeting from one state** lead to one state again. -/
theorem Owned.meeting_diamond (h : Owned writer reader s) (hs : Step s s')
    (ht : Meeting s t) : ∃ u, ReflTransGen Meeting s' u ∧ ReflGen Step t u := by
  obtain ⟨k, r, d, z, l', hr, rfl⟩ := step_iff.mp hs
  cases ht with
  | @recv q c y l hq =>
      by_cases hrq : r = q
      · subst hrq
        obtain ⟨_, rfl, rfl, rfl⟩ := hr.unique hq
        exact ⟨_, .refl, .refl⟩
      · obtain ⟨l₁, l₂, hq', hr', heq⟩ := h.commutes hr hq hrq
        refine ⟨_, .single (.recv hq'), ?_⟩
        rw [heq]
        exact .single hr'.step
  | @meet p q c m next next' hp hq hqueue =>
      have hne : q ≠ p := by
        rintro rfl
        cases hp.symm.trans hq
      have hsend : Use s true p c next [m] := by
        have huse := Use.send hp
        rwa [hqueue] at huse
      by_cases hrp : r = p
      · -- the sender has not waited; its message is received from the channel
        subst hrp
        obtain ⟨_, rfl, rfl, rfl⟩ := hr.unique hsend
        refine ⟨_, .single (.recv (.recv ?_ put_queue_self)), .refl⟩
        rw [put_procs_ne hne, hq]
      · have hrq : r ≠ q := by
          rintro rfl
          cases hr with
          | send hr => cases hq.symm.trans hr
          | recv hr hqueue' =>
              cases hq.symm.trans hr
              cases hqueue.symm.trans hqueue'
        have hdc : d ≠ c := by
          rintro rfl
          cases k with
          | true => exact hrp ((h.owner hr).1.symm.trans (h.owner hsend).1)
          | false =>
              cases hr with
              | recv _ hqueue' => cases hqueue.symm.trans hqueue'
        have hr' := (hr.put (x := next) (l := [m]) (Ne.symm hrp) (Ne.symm hdc)).put
          (x := next' m) (l := []) (Ne.symm hrq) (Ne.symm hdc)
        have hmeet := @Meeting.meet _ _ _ _ _ _ (s.put r z d l') p q c m next next'
          (by rw [put_procs_ne (Ne.symm hrp), hp]) (by rw [put_procs_ne (Ne.symm hrq), hq])
          (by rw [put_queue_ne (Ne.symm hdc), hqueue])
        refine ⟨_, .single hmeet, ?_⟩
        rw [put_comm hrp hdc, put_comm hrq hdc]
        exact .single hr'.step

/-- A run along `r` to an end is still there after a step, when a step and `r` from
one state lead to one state again. -/
theorem Owned.run_of_step {r : Network ι χ μ α → Network ι χ μ α → Prop}
    (hdiamond : ∀ {s s' t : Network ι χ μ α}, Owned writer reader s → Step s s' → r s t →
      ∃ u, ReflTransGen r s' u ∧ ReflGen Step t u)
    (hsteps : ∀ {s t : Network ι χ μ α}, r s t → ReflTransGen Step s t) (hend : ∀ u, ¬ Step t u)
    (h : Owned writer reader s) (hrun : ReflTransGen r s t) (hs : Step s s') :
    ReflTransGen r s' t := by
  induction hrun using ReflTransGen.head_induction_on generalizing s' with
  | refl => exact absurd hs (hend s')
  | @head s s₁ hfirst hrest ih =>
      obtain ⟨u, hu, hstep⟩ := hdiamond h hs hfirst
      have h₁ := h.steps (hsteps hfirst)
      cases hstep with
      | refl => exact hu.trans hrest
      | single hstep => exact hu.trans (ih h₁ hstep)

/-- A run to an end is still there after any other run. -/
theorem Owned.run_of_run {r : Network ι χ μ α → Network ι χ μ α → Prop}
    (hdiamond : ∀ {s s' t : Network ι χ μ α}, Owned writer reader s → Step s s' → r s t →
      ∃ u, ReflTransGen r s' u ∧ ReflGen Step t u)
    (hsteps : ∀ {s t : Network ι χ μ α}, r s t → ReflTransGen Step s t) (hend : ∀ u, ¬ Step t u)
    (h : Owned writer reader s) (hrun : ReflTransGen r s t) (hother : ReflTransGen Step s s') :
    ReflTransGen r s' t := by
  induction hother using ReflTransGen.head_induction_on with
  | refl => exact hrun
  | head hfirst _ ih =>
      exact ih (h.step hfirst) (h.run_of_step hdiamond hsteps hend hrun hfirst)

/-- **One complete run is enough.** -/
theorem completes_of_run (h : Owned writer reader s) (hrun : ReflTransGen Step s t)
    (hend : ∀ u, ¬ Step t u) (hother : ReflTransGen Step s s') : ReflTransGen Step s' t :=
  h.run_of_run Owned.diamond .single hend hrun hother

/-- **One run in which all messages are handed over is enough**: every run can be
completed so. -/
theorem meets_of_run (h : Owned writer reader s) (hrun : ReflTransGen Meeting s t)
    (hend : ∀ u, ¬ Step t u) (hother : ReflTransGen Step s s') : ReflTransGen Meeting s' t :=
  h.run_of_run Owned.meeting_diamond Meeting.steps hend hrun hother

end Order

section Blocks

variable (writer reader)

/-- What a process sends of a block of messages. -/
def sendsOf (p : ι) (b : List (χ × μ)) : List (Action χ μ) :=
  (b.filter fun t => writer t.1 = p).map fun t => .send t.1 t.2

/-- What a process receives of it. -/
def receivesOf (p : ι) (b : List (χ × μ)) : List (Action χ μ) :=
  (b.filter fun t => reader t.1 = p).map fun t => .recv t.1 t.2

/-- What a process does for some blocks of messages. -/
def partOf (p : ι) (blocks : List (List (χ × μ))) : List (Action χ μ) :=
  blocks.flatMap fun b => sendsOf writer p b ++ receivesOf reader p b

/-- The messages of a block on one channel. -/
def carriedOn (c : χ) (b : List (χ × μ)) : List μ :=
  b.filterMap fun t => if t.1 = c then some t.2 else none

/-- **The processes of `S` perform the blocks**, and end with the results. -/
structure Performs (S : Set ι) (procs : ι → Proc χ μ α) (blocks : List (List (χ × μ)))
    (result : ι → α) : Prop where
  follows : ∀ p ∈ S, Follows (procs p) (partOf writer reader p blocks) (result p)
  inside : ∀ b ∈ blocks, ∀ t ∈ b, writer t.1 ∈ S ∧ reader t.1 ∈ S

variable {writer reader} {S : Set ι} {blocks blocks' : List (List (χ × μ))} {b : List (χ × μ)}

section Parts

variable {β : Type*} {p : ι} {l : List β} {f : β → List (χ × μ)} {c : Prop} [Decidable c]
  {t : χ × μ}

omit [DecidableEq χ] in
theorem sendsOf_flatMap :
    sendsOf writer p (l.flatMap f) = l.flatMap fun i => sendsOf writer p (f i) := by
  rw [sendsOf, List.filter_flatMap, List.map_flatMap]
  rfl

omit [DecidableEq χ] in
theorem receivesOf_flatMap :
    receivesOf reader p (l.flatMap f) = l.flatMap fun i => receivesOf reader p (f i) := by
  rw [receivesOf, List.filter_flatMap, List.map_flatMap]
  rfl

omit [DecidableEq χ] in
@[simp] theorem sendsOf_ite : sendsOf writer p (if c then [t] else []) =
    if c ∧ writer t.1 = p then [.send t.1 t.2] else [] := by
  by_cases hc : c <;> by_cases hw : writer t.1 = p <;> simp [sendsOf, hc, hw]

omit [DecidableEq χ] in
@[simp] theorem receivesOf_ite : receivesOf reader p (if c then [t] else []) =
    if c ∧ reader t.1 = p then [.recv t.1 t.2] else [] := by
  by_cases hc : c <;> by_cases hr : reader t.1 = p <;> simp [receivesOf, hc, hr]

omit [DecidableEq χ] in
@[simp] theorem sendsOf_singleton :
    sendsOf writer p [t] = if writer t.1 = p then [.send t.1 t.2] else [] := by
  by_cases hw : writer t.1 = p <;> simp [sendsOf, hw]

omit [DecidableEq χ] in
@[simp] theorem receivesOf_singleton :
    receivesOf reader p [t] = if reader t.1 = p then [.recv t.1 t.2] else [] := by
  by_cases hr : reader t.1 = p <;> simp [receivesOf, hr]

omit [DecidableEq χ] in
@[simp] theorem partOf_nil : partOf writer reader p ([] : List (List (χ × μ))) = [] := rfl

omit [DecidableEq χ] in
theorem partOf_cons (b : List (χ × μ)) (blocks : List (List (χ × μ))) :
    partOf writer reader p (b :: blocks) =
      sendsOf writer p b ++ receivesOf reader p b ++ partOf writer reader p blocks :=
  List.flatMap_cons

/-- Each message is a block of its own. -/
def oneByOne {τ : Type*} (l : List τ) : List (List τ) := l.map fun t => [t]

omit [DecidableEq χ] in
theorem partOf_oneByOne (p : ι) (l : List (χ × μ)) :
    partOf writer reader p (oneByOne l) = l.flatMap fun t =>
      (if writer t.1 = p then [.send t.1 t.2] else []) ++
        if reader t.1 = p then [.recv t.1 t.2] else [] := by
  rw [partOf, oneByOne, List.flatMap_map]
  simp only [sendsOf_singleton, receivesOf_singleton]

end Parts

omit [DecidableEq χ] in
theorem partOf_append (p : ι) (blocks blocks' : List (List (χ × μ))) :
    partOf writer reader p (blocks ++ blocks') =
      partOf writer reader p blocks ++ partOf writer reader p blocks' :=
  List.flatMap_append

omit [DecidableEq χ] in
/-- Processes that go on with their results. -/
theorem Performs.bind {σ : Type u} {procs : ι → Proc χ μ α} {result : ι → α}
    {f : ι → α → Proc χ μ σ} {result' : ι → σ}
    (h : Performs writer reader S procs blocks result)
    (hf : Performs writer reader S (fun p => f p (result p)) blocks' result') :
    Performs writer reader S (fun p => procs p >>= f p) (blocks ++ blocks') result' where
  follows p hp := by
    rw [partOf_append]
    exact (h.follows p hp).bind (hf.follows p hp)
  inside b hb := by
    rcases List.mem_append.mp hb with hb | hb
    · exact h.inside b hb
    · exact hf.inside b hb

/-- The processes of a block send. -/
theorem run_sends {result : ι → α} {rest : ι → List (Action χ μ)} (b : List (χ × μ))
    (hinside : ∀ t ∈ b, writer t.1 ∈ S)
    (hfollows : ∀ p ∈ S, Follows (s.procs p) (sendsOf writer p b ++ rest p) (result p)) :
    ∃ t, ReflTransGen Step s t ∧ (∀ p ∈ S, Follows (t.procs p) (rest p) (result p)) ∧
      (∀ p ∉ S, t.procs p = s.procs p) ∧ ∀ c, t.queue c = s.queue c ++ carriedOn c b := by
  induction b generalizing s with
  | nil => exact ⟨s, .refl, hfollows, fun _ _ => rfl, fun c => (List.append_nil _).symm⟩
  | cons t b ih =>
      obtain ⟨c, m⟩ := t
      have hmem : writer c ∈ S := hinside _ List.mem_cons_self
      have hfirst := hfollows _ hmem
      simp only [sendsOf, List.filter_cons, decide_true, if_true, List.map_cons,
        List.cons_append] at hfirst
      generalize hx : s.procs (writer c) = x at hfirst
      cases hfirst with
      | @send _ _ next _ _ hnext =>
          have hstep := (Use.send hx).step
          obtain ⟨t, hrun, hrest, hout, hqueue⟩ := @ih
            (s.put (writer c) next c (s.queue c ++ [m]))
            (fun t ht => hinside t (List.mem_cons_of_mem _ ht)) (by
              intro p hp
              by_cases hpw : p = writer c
              · subst hpw
                rw [put_procs_self]
                exact hnext
              · have hothers := hfollows p hp
                simp only [sendsOf, List.filter_cons, Ne.symm hpw, decide_false,
                  Bool.false_eq_true, if_false] at hothers
                rw [put_procs_ne hpw]
                exact hothers)
          refine ⟨t, .head hstep hrun, hrest, ?_, ?_⟩
          · intro p hp
            rw [hout p hp, put_procs_ne]
            rintro rfl
            exact hp hmem
          · intro d
            rw [hqueue]
            by_cases hd : d = c
            · subst hd
              simp [carriedOn]
            · simp [carriedOn, hd, Ne.symm hd]

/-- The processes of a block receive what is on the channels. -/
theorem run_receives {result : ι → α} {rest : ι → List (Action χ μ)} (b : List (χ × μ))
    (queue : χ → List μ) (hinside : ∀ t ∈ b, reader t.1 ∈ S)
    (hqueue : ∀ c, s.queue c = carriedOn c b ++ queue c)
    (hfollows : ∀ p ∈ S, Follows (s.procs p) (receivesOf reader p b ++ rest p) (result p)) :
    ∃ t, ReflTransGen Step s t ∧ (∀ p ∈ S, Follows (t.procs p) (rest p) (result p)) ∧
      (∀ p ∉ S, t.procs p = s.procs p) ∧ t.queue = queue := by
  induction b generalizing s with
  | nil =>
      refine ⟨s, .refl, hfollows, fun _ _ => rfl, funext fun c => ?_⟩
      rw [hqueue]
      rfl
  | cons t b ih =>
      obtain ⟨c, m⟩ := t
      have hmem : reader c ∈ S := hinside _ List.mem_cons_self
      have hfirst := hfollows _ hmem
      simp only [receivesOf, List.filter_cons, decide_true, if_true, List.map_cons,
        List.cons_append] at hfirst
      have hc : s.queue c = m :: (carriedOn c b ++ queue c) := by
        rw [hqueue]
        simp [carriedOn]
      generalize hx : s.procs (reader c) = x at hfirst
      cases hfirst with
      | @recv _ _ next _ _ hnext =>
          have hstep := (Use.recv hx hc).step
          obtain ⟨t, hrun, hrest, hout, hqueue'⟩ := @ih
            (s.put (reader c) (next m) c (carriedOn c b ++ queue c))
            (fun t ht => hinside t (List.mem_cons_of_mem _ ht)) (by
              intro d
              by_cases hd : d = c
              · subst hd
                rw [put_queue_self]
              · rw [put_queue_ne hd, hqueue]
                simp [carriedOn, Ne.symm hd]) (by
              intro p hp
              by_cases hpr : p = reader c
              · subst hpr
                rw [put_procs_self]
                exact hnext
              · have hothers := hfollows p hp
                simp only [receivesOf, List.filter_cons, Ne.symm hpr, decide_false,
                  Bool.false_eq_true, if_false] at hothers
                rw [put_procs_ne hpr]
                exact hothers)
          refine ⟨t, .head hstep hrun, hrest, ?_, hqueue'⟩
          intro p hp
          rw [hout p hp, put_procs_ne]
          rintro rfl
          exact hp hmem

omit [DecidableEq ι] [DecidableEq χ] in
theorem done_of_follows {x : Proc χ μ α} {a : α} (h : Follows x [] a) : x = .done a := by
  cases h
  rfl

/-- The processes go through the blocks one after the other. -/
theorem run_blocks {result : ι → α} (hinside : ∀ b ∈ blocks, ∀ t ∈ b, writer t.1 ∈ S ∧ reader t.1 ∈ S)
    (hqueue : s.queue = fun _ => [])
    (hfollows : ∀ p ∈ S, Follows (s.procs p) (partOf writer reader p blocks) (result p)) :
    ∃ t, ReflTransGen Step s t ∧ (∀ p ∈ S, t.procs p = .done (result p)) ∧
      ∀ p ∉ S, t.procs p = s.procs p := by
  induction blocks generalizing s with
  | nil => exact ⟨s, .refl, fun p hp => done_of_follows (hfollows p hp), fun _ _ => rfl⟩
  | cons b blocks ih =>
      have hb := hinside b List.mem_cons_self
      have hfirst : ∀ p ∈ S, Follows (s.procs p) (sendsOf writer p b ++
          (receivesOf reader p b ++ partOf writer reader p blocks)) (result p) := by
        intro p hp
        have hp := hfollows p hp
        rwa [partOf, List.flatMap_cons, List.append_assoc] at hp
      obtain ⟨s₁, hrun₁, hfollows₁, hout₁, hqueue₁⟩ :=
        run_sends b (fun t ht => (hb t ht).1) hfirst
      obtain ⟨s₂, hrun₂, hfollows₂, hout₂, hqueue₂⟩ :=
        run_receives b (fun _ => []) (fun t ht => (hb t ht).2)
          (fun c => by rw [hqueue₁, hqueue, List.nil_append, List.append_nil]) hfollows₁
      obtain ⟨t, hrun, hdone, hout⟩ := ih (fun b' hb' => hinside b' (List.mem_cons_of_mem _ hb'))
        hqueue₂ hfollows₂
      refine ⟨t, (hrun₁.trans hrun₂).trans hrun, hdone, ?_⟩
      intro p hp
      rw [hout p hp, hout₂ p hp, hout₁ p hp]

/-- The processes hand the messages over one after the other. -/
theorem run_meetings {result : ι → α}
    (hinside : ∀ b ∈ blocks, ∀ t ∈ b, writer t.1 ∈ S ∧ reader t.1 ∈ S)
    (hsingle : ∀ b ∈ blocks, ∃ t, b = [t] ∧ writer t.1 ≠ reader t.1)
    (hqueue : s.queue = fun _ => [])
    (hfollows : ∀ p ∈ S, Follows (s.procs p) (partOf writer reader p blocks) (result p)) :
    ∃ t, ReflTransGen Meeting s t ∧ (∀ p ∈ S, t.procs p = .done (result p)) ∧
      ∀ p ∉ S, t.procs p = s.procs p := by
  induction blocks generalizing s with
  | nil => exact ⟨s, .refl, fun p hp => done_of_follows (hfollows p hp), fun _ _ => rfl⟩
  | cons b blocks ih =>
      obtain ⟨⟨c, m⟩, rfl, hwr⟩ := hsingle b List.mem_cons_self
      change writer c ≠ reader c at hwr
      obtain ⟨hwriter, hreader⟩ := hinside _ List.mem_cons_self _ (List.mem_singleton_self _)
      have hpart : ∀ p, partOf writer reader p ([(c, m)] :: blocks) =
          (if writer c = p then [.send c m] else []) ++ ((if reader c = p then [.recv c m] else []) ++
            partOf writer reader p blocks) := by
        intro p
        rw [partOf_cons, sendsOf_singleton, receivesOf_singleton, List.append_assoc]
      have hsend := hfollows _ hwriter
      rw [hpart, if_pos rfl, if_neg (Ne.symm hwr)] at hsend
      have hrecv := hfollows _ hreader
      rw [hpart, if_neg hwr, if_pos rfl] at hrecv
      generalize hx : s.procs (writer c) = x at hsend
      generalize hy : s.procs (reader c) = y at hrecv
      cases hsend with
      | @send _ _ next _ _ hnext =>
          cases hrecv with
          | @recv _ _ next' _ _ hnext' =>
              have hmeet := Meeting.meet hx hy (congrFun hqueue c)
              have hempty : ((s.put (writer c) next c [m]).put (reader c) (next' m) c []).queue =
                  fun _ => [] := by
                funext d
                by_cases hd : d = c
                · subst hd
                  rw [put_queue_self]
                · rw [put_queue_ne hd, put_queue_ne hd, hqueue]
              obtain ⟨t, hrun, hdone, hout⟩ := @ih
                ((s.put (writer c) next c [m]).put (reader c) (next' m) c [])
                (fun b hb => hinside b (List.mem_cons_of_mem _ hb))
                (fun b hb => hsingle b (List.mem_cons_of_mem _ hb)) hempty (by
                  intro p hp
                  by_cases hpr : p = reader c
                  · subst hpr
                    rw [put_procs_self]
                    exact hnext'
                  · rw [put_procs_ne hpr]
                    by_cases hpw : p = writer c
                    · subst hpw
                      rw [put_procs_self]
                      exact hnext
                    · rw [put_procs_ne hpw]
                      have hothers := hfollows p hp
                      rwa [hpart, if_neg (Ne.symm hpw), if_neg (Ne.symm hpr)] at hothers)
              refine ⟨t, .head hmeet hrun, hdone, ?_⟩
              intro p hp
              rw [hout p hp, put_procs_ne, put_procs_ne]
              · rintro rfl
                exact hp hwriter
              · rintro rfl
                exact hp hreader

omit [DecidableEq ι] [DecidableEq χ] in
theorem Use.not_stopped {k : Bool} {p : ι} {c : χ} {x : Proc χ μ α} {l : List μ}
    (h : Use s k p c x l) : ¬ (s.procs p).Stopped := by
  cases h with
  | send hp =>
      rw [hp]
      exact id
  | recv hp _ =>
      rw [hp]
      exact id

/-- No process takes a step any more. -/
theorem ended (h : ∀ p, (t.procs p).Stopped) : ∀ u, ¬ Step t u := by
  intro u hstep
  obtain ⟨k, p, c, x, l, huse, _⟩ := step_iff.mp hstep
  exact huse.not_stopped (h p)

/-- A process that takes no step stays as it is. -/
theorem stopped_of_steps (hrun : ReflTransGen Step s t) {p : ι} (h : (s.procs p).Stopped) :
    t.procs p = s.procs p := by
  induction hrun with
  | refl => rfl
  | tail _ hstep ih =>
      obtain ⟨k, q, c, x, l, huse, rfl⟩ := step_iff.mp hstep
      have hpq : p ≠ q := by
        rintro rfl
        refine huse.not_stopped ?_
        rw [ih]
        exact h
      rw [put_procs_ne hpq, ih]

/-- A process that is never done stays so. -/
theorem Doomed.of_steps (hrun : ReflTransGen Step s t) {p : ι} (h : Doomed (s.procs p)) :
    Doomed (t.procs p) := by
  induction hrun with
  | refl => exact h
  | @tail t u _ hstep ih =>
      obtain ⟨k, q, c, x, l, huse, rfl⟩ := step_iff.mp hstep
      by_cases hpq : p = q
      · subst hpq
        rw [put_procs_self]
        cases huse with
        | send hp =>
            rw [hp] at ih
            cases ih with
            | send hnext => exact hnext
        | recv hp _ =>
            rw [hp] at ih
            cases ih with
            | recv hnext => exact hnext _
      · rwa [put_procs_ne hpq]

section Runs

variable {procs : ι → Proc χ μ α} {result : ι → α}

omit [DecidableEq ι] [DecidableEq χ] in
/-- All have stopped when those of `S` are done and the others never ran. -/
theorem stopped_of_parts (hdone : ∀ p ∈ S, t.procs p = .done (result p))
    (hrest : ∀ p ∉ S, t.procs p = (start procs).procs p) (hout : ∀ p ∉ S, (procs p).Stopped)
    (p : ι) : (t.procs p).Stopped := by
  by_cases hp : p ∈ S
  · rw [hdone p hp]
    trivial
  · rw [hrest p hp]
    exact hout p hp

/-- **Processes that perform blocks complete every run** with the same results. -/
theorem Performs.completes (h : Performs writer reader S procs blocks result)
    (howned : Owned writer reader (start procs)) (hout : ∀ p ∉ S, (procs p).Stopped) :
    ∃ t : Network ι χ μ α, (∀ p ∈ S, t.procs p = .done (result p)) ∧
      ∀ s, ReflTransGen Step (start procs) s → ReflTransGen Step s t := by
  obtain ⟨t, hrun, hdone, hrest⟩ := run_blocks (s := start procs) h.inside rfl h.follows
  have hend := ended (stopped_of_parts hdone hrest hout)
  exact ⟨t, hdone, fun s hs => completes_of_run howned hrun hend hs⟩

/-- **Processes that perform single messages** complete every run by handing over
what is left. -/
theorem Performs.meets (h : Performs writer reader S procs blocks result)
    (hsingle : ∀ b ∈ blocks, ∃ t, b = [t] ∧ writer t.1 ≠ reader t.1)
    (howned : Owned writer reader (start procs)) (hout : ∀ p ∉ S, (procs p).Stopped) :
    ∃ t : Network ι χ μ α, (∀ p ∈ S, t.procs p = .done (result p)) ∧
      ∀ s, ReflTransGen Step (start procs) s → ReflTransGen Meeting s t := by
  obtain ⟨t, hrun, hdone, hrest⟩ :=
    run_meetings (s := start procs) h.inside hsingle rfl h.follows
  have hend := ended (stopped_of_parts hdone hrest hout)
  exact ⟨t, hdone, fun s hs => meets_of_run howned hrun hend hs⟩

end Runs

end Blocks

end ProcessNetwork
