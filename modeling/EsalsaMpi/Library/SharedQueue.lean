import Mathlib.Algebra.BigOperators.Group.Multiset.Basic

/-!
# Workers that share a queue

Each worker has a job or none, and takes its next one from a queue that it shares with the
others.  `visit` gives every worker in turn the chance to do so.

* `jobs_visit`: a visit neither loses a job nor makes one;
* `busy_of_visit`: a job is left in the queue only if all workers are busy.
-/

namespace SharedQueue

variable {W J : Type*} (job : W → Option J)

/-- The jobs that are in the queue or with a worker. -/
def jobs (workers : List W) (queue : List J) : Multiset J :=
  (queue : Multiset J) + (workers.filterMap job : Multiset J)

/-- A worker looks at the queue: if it has no job, it takes the first. -/
structure Takes (look : W → List J → W × List J) : Prop where
  busy : ∀ w queue j, job w = some j → job (look w queue).1 = some j ∧ (look w queue).2 = queue
  idle : ∀ w, job w = none → job (look w []).1 = none ∧ (look w []).2 = []
  takes : ∀ w j queue, job w = none →
    job (look w (j :: queue)).1 = some j ∧ (look w (j :: queue)).2 = queue

/-- Every worker looks at the queue in turn. -/
def visit (look : W → List J → W × List J) : List W → List J → List W × List J
  | [], queue => ([], queue)
  | w :: workers, queue =>
    let rest := visit look workers (look w queue).2
    ((look w queue).1 :: rest.1, rest.2)

variable {job} {look : W → List J → W × List J} {workers : List W} {queue : List J} {w w' : W}
  {j : J}

theorem jobs_cons (w : W) (workers : List W) (queue : List J) :
    jobs job (w :: workers) queue = (job w).elim 0 (fun j => {j}) + jobs job workers queue := by
  cases hjob : job w with
  | none => rw [jobs, List.filterMap_cons_none hjob, Option.elim, Multiset.zero_add, jobs]
  | some j =>
      rw [jobs, List.filterMap_cons_some hjob, Option.elim, jobs, ← Multiset.cons_coe,
        Multiset.add_cons, Multiset.singleton_add]

theorem mem_jobs : j ∈ jobs job workers queue ↔ j ∈ queue ∨ ∃ w ∈ workers, job w = some j := by
  rw [jobs, Multiset.mem_add, Multiset.mem_coe, Multiset.mem_coe, List.mem_filterMap]

/-- A job that is put into the queue. -/
theorem jobs_append (j : J) : jobs job workers (queue ++ [j]) = j ::ₘ jobs job workers queue := by
  rw [jobs, jobs, ← Multiset.coe_add, Multiset.coe_singleton, add_right_comm,
    Multiset.add_comm _ {j}, Multiset.singleton_add]

/-- The jobs of the workers in front of one, those behind it, and its own. -/
theorem jobs_middle (before after : List W) :
    jobs job (before ++ w :: after) queue =
      (job w).elim 0 (fun j => {j}) + jobs job (before ++ after) queue := by
  induction before with
  | nil => exact jobs_cons w after queue
  | cons v before ih =>
      rw [List.cons_append, jobs_cons, ih, List.cons_append, jobs_cons, add_left_comm]

/-- A worker has others in front of it and behind it. -/
theorem exists_middle {i : Nat} (hi : workers[i]? = some w) :
    ∃ before after, workers = before ++ w :: after ∧
      ∀ w', workers.set i w' = before ++ w' :: after := by
  obtain ⟨hlt, rfl⟩ := List.getElem?_eq_some_iff.mp hi
  refine ⟨workers.take i, workers.drop (i + 1), ?_, fun w' => ?_⟩
  · rw [List.getElem_cons_drop, List.take_append_drop]
  · rw [List.set_eq_take_append_cons_drop, if_pos hlt]

/-- A worker that is replaced by one with the same job. -/
theorem jobs_set {i : Nat} (hi : workers[i]? = some w) (hjob : job w' = job w) :
    jobs job (workers.set i w') queue = jobs job workers queue := by
  obtain ⟨before, after, hworkers, hset⟩ := exists_middle hi
  rw [hset, hworkers, jobs_middle, jobs_middle, hjob]

/-- Only the job of the new worker matters. -/
theorem jobs_set_congr {i : Nat} {w'' : W} (hi : workers[i]? = some w) (hjob : job w' = job w'') :
    jobs job (workers.set i w') queue = jobs job (workers.set i w'') queue := by
  obtain ⟨before, after, _, hset⟩ := exists_middle hi
  rw [hset, hset, jobs_middle, jobs_middle, hjob]

/-- A worker that has done its job. -/
theorem jobs_done {i : Nat} (hi : workers[i]? = some w) (hjob : job w = some j)
    (hdone : job w' = none) :
    j ::ₘ jobs job (workers.set i w') queue = jobs job workers queue := by
  obtain ⟨before, after, hworkers, hset⟩ := exists_middle hi
  rw [hset, hworkers, jobs_middle, jobs_middle, hjob, hdone, Option.elim, Option.elim,
    Multiset.zero_add, Multiset.singleton_add]

/-- A worker that looks at the queue, in front of the others. -/
theorem Takes.jobs_look (h : Takes job look) (w : W) (workers : List W) (queue : List J) :
    (job (look w queue).1).elim 0 (fun j => {j}) + jobs job workers (look w queue).2 =
      (job w).elim 0 (fun j => {j}) + jobs job workers queue := by
  cases hjob : job w with
  | some j =>
      obtain ⟨hbusy, hqueue⟩ := h.busy w queue j hjob
      rw [hbusy, hqueue]
  | none =>
      cases queue with
      | nil =>
          obtain ⟨hidle, hqueue⟩ := h.idle w hjob
          rw [hidle, hqueue]
      | cons j queue =>
          obtain ⟨htaken, hqueue⟩ := h.takes w j queue hjob
          rw [htaken, hqueue, Option.elim, Option.elim, Multiset.zero_add, jobs, jobs,
            ← Multiset.cons_coe, Multiset.cons_add, Multiset.singleton_add]

/-- A worker that looks at the queue, wherever it stands. -/
theorem Takes.jobs_set (h : Takes job look) {i : Nat} (hi : workers[i]? = some w)
    (queue : List J) :
    jobs job (workers.set i (look w queue).1) (look w queue).2 = jobs job workers queue := by
  obtain ⟨before, after, hworkers, hset⟩ := exists_middle hi
  rw [hset, hworkers, jobs_middle, jobs_middle, h.jobs_look]

/-- **A visit** neither loses a job nor makes one. -/
theorem jobs_visit (h : Takes job look) (workers : List W) (queue : List J) :
    jobs job (visit look workers queue).1 (visit look workers queue).2 =
      jobs job workers queue := by
  induction workers generalizing queue with
  | nil => rfl
  | cons w workers ih =>
      rw [visit, jobs_cons, ih, h.jobs_look, jobs_cons]

/-- What is left in the queue was there before. -/
theorem Takes.mem_of_mem_look (h : Takes job look) (w : W) (queue : List J)
    (hj : j ∈ (look w queue).2) : j ∈ queue := by
  cases hjob : job w with
  | some k => rwa [(h.busy w queue k hjob).2] at hj
  | none =>
      cases queue with
      | nil => rwa [(h.idle w hjob).2] at hj
      | cons k queue =>
          rw [(h.takes w k queue hjob).2] at hj
          exact List.mem_cons_of_mem k hj

theorem mem_of_mem_visit (h : Takes job look) (workers : List W) (queue : List J)
    (hj : j ∈ (visit look workers queue).2) : j ∈ queue := by
  induction workers generalizing queue with
  | nil => exact hj
  | cons w workers ih => exact h.mem_of_mem_look w queue (ih _ hj)

/-- **A job is left in the queue** only if all workers are busy. -/
theorem busy_of_visit (h : Takes job look) (workers : List W) (queue : List J)
    (hleft : (visit look workers queue).2 ≠ []) :
    ∀ w ∈ (visit look workers queue).1, job w ≠ none := by
  induction workers generalizing queue with
  | nil => exact fun w hw => absurd hw List.not_mem_nil
  | cons w workers ih =>
      intro v hv
      rcases List.mem_cons.mp hv with rfl | hv
      · cases hjob : job w with
        | some j => rw [(h.busy w queue j hjob).1]; exact Option.some_ne_none j
        | none =>
            cases queue with
            | nil =>
                refine absurd (List.eq_nil_iff_forall_not_mem.mpr fun j hj => ?_) hleft
                exact List.not_mem_nil (mem_of_mem_visit h (w :: workers) [] hj)
            | cons j queue =>
                rw [(h.takes w j queue hjob).1]
                exact Option.some_ne_none j
      · exact ih _ hleft v hv

/-- What looking at the queue makes of a worker holds of all that have been visited. -/
theorem forall_visit {P Q : W → Prop} (hlook : ∀ w queue, P w → Q (look w queue).1)
    (workers : List W) (queue : List J) (hworkers : ∀ w ∈ workers, P w) :
    ∀ w ∈ (visit look workers queue).1, Q w := by
  induction workers generalizing queue with
  | nil => exact fun w hw => absurd hw List.not_mem_nil
  | cons w workers ih =>
      intro v hv
      rcases List.mem_cons.mp hv with rfl | hv
      · exact hlook w queue (hworkers w List.mem_cons_self)
      · exact ih _ (fun u hu => hworkers u (List.mem_cons_of_mem w hu)) v hv

@[simp] theorem length_visit (workers : List W) (queue : List J) :
    (visit look workers queue).1.length = workers.length := by
  induction workers generalizing queue with
  | nil => rfl
  | cons w workers ih => rw [visit, List.length_cons, ih, List.length_cons]

end SharedQueue
