import EsalsaMpi.Concurrent.Answers
import EsalsaMpi.Library.Endings
import Mathlib.Algebra.Order.BigOperators.Group.Finset

/-!
# Calls come to their end

From whatever state a run has got to, if no process makes another call, the server and the
processes that wait for it come to their end after a bounded number of steps, in whatever order
the receiver threads deliver the requests, the threads take turns between the jobs and the
processes take their replies.  Then nothing is on its way any more, and request number `k` of a
member has been answered if and only if all members have made their request number `k` and these
agree (`settles`).  So a process is left in a call for three reasons only: a member has not made
the call, two members have made different ones, or the server does not know the handle.

The steps left are counted by the phases: a request on its way has yet to be delivered, a
request that is stored or worked on to be answered, and an answer to be taken.
-/

namespace EsalsaMpi

open Endings

/-- What is left to do for a process in this phase. -/
def Phase.stepsLeft : Phase → Nat
  | .sent _ => 3
  | .stored _ => 2
  | .working _ => 2
  | .answered _ => 1
  | _ => 0

namespace Application

variable {cfg : Server.Config} {order : Server.HashOrder} {s s' : Application} {pid : Pid}
  {n : Nat} {req : Server.CommunicatorRequest}

/-- What server and processes do about the calls that have been made. -/
inductive Serves (cfg : Server.Config) (order : Server.HashOrder) :
    Application → Application → Prop where
  | deliver {s : Application} {req : Server.CommunicatorRequest}
      {before after : List Server.CommunicatorRequest}
      (hrequest : s.base.requests req.source = before ++ req :: after)
      (hmonitor : s.base.work req.communicator = []) :
      Serves cfg order s (s.deliver cfg order req (before ++ after))
  | perform {s : Application} {n : Nat} {job : Server.Job} {jobs : List Server.Job}
      (hwork : s.base.work n = job :: jobs) : Serves cfg order s (s.perform cfg n job jobs)
  | accept {s : Application} {pid : Pid} {p : Process} {c : Communicator} {call : Call}
      {body : Server.ReplyBody} {before after : List Server.ReplyBody}
      {comm : Option (List Pid)} (hphase : s.phase pid = .answered call)
      (hp : s.base.processes pid = some p) (hc : p.comms call.handle = some c)
      (hreply : s.base.replies pid = before ++ body :: after)
      (hcomm : p.Returns call.operation body comm) :
      Serves cfg order s
        (s.accept pid ((p.conclude c call.operation body comm).getD p) (before ++ after))

/-- Nothing is on its way, and whoever is in a call has a request that is not answered, which
it is if and only if the members have made it alike. -/
structure Settled (s : Application) : Prop where
  requests : ∀ pid, s.base.requests pid = []
  work : ∀ n, s.base.work n = []
  replies : ∀ pid, s.phase pid ≠ .ended → s.base.replies pid = []
  waiting : ∀ pid call, (s.phase pid).call = some call →
    s.phase pid = .stored call ∨ s.phase pid = .lost call
  answered : ∀ h t, s.Live h t → ∀ pid ∈ t.members, ∀ k,
    k < s.answers h pid ↔ s.AllIssued h t.members k
  unknown : ∀ h, ReservedHandle h → ∀ pid, s.answers h pid = 0

/-- The calls that have been made come to their end. -/
def Settles (cfg : Server.Config) (order : Server.HashOrder) : Prop :=
  ∀ s, Reachable cfg order s →
    EndsIn (Serves cfg order) (fun t => t.issued = s.issued ∧ t.Settled) s

theorem Serves.isStep (h : Serves cfg order s s') : Step cfg order s s' := by
  cases h with
  | deliver hrequest hmonitor => exact .deliver hrequest hmonitor
  | perform hwork => exact .perform hwork
  | accept hphase hp hc hreply hcomm => exact .accept hphase hp hc hreply hcomm

/-! ## Who is in a call has made it -/

/-- A process that is in a call has the handle in its table. -/
def CallersKnow (s : Application) : Prop :=
  ∀ pid call, (s.phase pid).call = some call →
    ∃ p c, s.base.processes pid = some p ∧ p.comms call.handle = some c

/-- A request that gets further is for the same call. -/
theorem call_moveTo {phase : Call → Phase} (hphase : ∀ call, (phase call).call = some call)
    (ph : Phase) : (ph.moveTo phase).call = ph.call := by
  unfold Phase.moveTo
  cases hcall : ph.call with
  | none => exact hcall
  | some call => exact hphase call

theorem call_update {phase : Call → Phase} (hphase : ∀ call, (phase call).call = some call)
    (q : Pid) : (Function.update s.phase pid ((s.phase pid).moveTo phase) q).call =
      (s.phase q).call := by
  by_cases hq : q = pid
  · subst hq
    rw [Function.update_self, call_moveTo hphase]
  · rw [Function.update_of_ne hq]

/-- The server leaves a process in its call. -/
theorem call_delivery (q : Pid) :
    ((s.delivery cfg order req).phase q).call = (s.phase q).call := by
  unfold delivery
  dsimp only
  split
  · split
    · split
      · dsimp only
        split
        · split
          · exact call_moveTo (fun _ => rfl) _
          · exact call_moveTo (fun _ => rfl) _
        · rfl
      · exact call_update (fun _ => rfl) q
    · exact call_update (fun _ => rfl) q
  · exact call_update (fun _ => rfl) q

theorem call_perform {job : Server.Job} {jobs : List Server.Job} (q : Pid) :
    ((s.perform cfg n job jobs).phase q).call = (s.phase q).call := by
  unfold perform
  split
  · dsimp only
    split
    · exact call_moveTo (fun _ => rfl) _
    · rfl
  · dsimp only
    split
    · exact call_moveTo (fun _ => rfl) _
    · rfl

/-- A process that is not in a call need not know anything. -/
theorem CallersKnow.update (h : s.CallersKnow) {p : Pid → Option Process} {ph : Phase}
    (hph : ph.call = none) (hother : ∀ q ≠ pid, p q = s.base.processes q) :
    ∀ q call, (Function.update s.phase pid ph q).call = some call →
      ∃ p' c, p q = some p' ∧ p'.comms call.handle = some c := by
  intro q call hcall
  by_cases hq : q = pid
  · subst hq
    rw [Function.update_self, hph] at hcall
    cases hcall
  · rw [Function.update_of_ne hq] at hcall
    rw [hother q hq]
    exact h q call hcall

theorem callersKnow_step (h : s.CallersKnow) (hstep : Step cfg order s s') : s'.CallersKnow := by
  cases hstep with
  | @call pid p c handle op hphase hp hc hlegal =>
      intro q call' hcall
      by_cases hq : q = pid
      · subst hq
        simp only [call, Function.update_self, Phase.call, Option.some.injEq] at hcall
        subst hcall
        exact ⟨p, c, hp, hc⟩
      · simp only [call, Function.update_of_ne hq] at hcall
        exact h q call' hcall
  | deliver hrequest hmonitor =>
      intro q call' hcall
      exact h q call' ((call_delivery q).symm.trans hcall)
  | @perform n job jobs hwork =>
      intro q call' hcall
      obtain ⟨p, c, hp, hc⟩ := h q call' ((call_perform q).symm.trans hcall)
      refine ⟨p, c, ?_, hc⟩
      rw [← hp, perform]
      split <;> simp only [Concurrent.perform] <;> split <;> rfl
  | accept hphase hp hc hreply hcomm =>
      exact h.update rfl fun q hq => Function.update_of_ne hq _ _
  | halt hphase => exact h.update rfl fun q _ => rfl
  | send hphase hp hc hm => exact h
  | forward hm => exact h
  | take hphase hm => exact h

/-- The library of the cluster returns something. -/
theorem exists_returns (p : Process) (op : Server.Operation) (body : Server.ReplyBody) :
    ∃ comm, p.Returns op body comm := by
  have hiff : ∀ P : Prop, ∃ comm : Option (List Pid), comm = none ↔ P := by
    intro P
    by_cases hP : P
    · exact ⟨none, by simp [hP]⟩
    · exact ⟨some [], by simp [hP]⟩
  unfold Process.Returns
  split
  · exact hiff _
  · exact hiff _
  · exact ⟨some [], by simp⟩

/-! ## Every job answers somebody -/

/-- No job is without replies. -/
theorem audience_ne_nil {c : Server.Communicator} {requests : List Server.CommunicatorRequest}
    (hround : c.IsRound requests) (hvalid : cfg.Valid c.tables.members)
    (htables : c.tables = Server.tablesSpec c.tables.members)
    (hlegal : ∀ m ∈ requests, m.operation.Legal c.tables.members) :
    ∀ job ∈ c.jobs cfg order requests, job.audience ≠ [] := by
  intro job hjob
  -- a job alone answers all members
  have halone : c.jobs cfg order requests = [job] → job.audience ≠ [] := by
    intro hone hnil
    have hagree := @Server.agree_of_jobs_ne_nil cfg order c requests (by rw [hone]; simp)
    have hperm := @Server.audience_perm cfg order c requests hround hvalid htables hlegal hagree
    rw [hone, List.flatMap_singleton, hnil, List.nil_perm] at hperm
    have hlength := hround.length_eq
    rw [Server.Communicator.size, hperm, List.length_nil, List.length_eq_zero_iff] at hlength
    subst hlength
    exact absurd hjob List.not_mem_nil
  cases requests with
  | nil => cases hjob
  | cons first others =>
      have hfirst := hlegal first List.mem_cons_self
      rw [Server.Communicator.jobs] at hjob halone
      split at hjob
      · rename_i hopcodes
        rw [if_pos hopcodes] at halone
        cases hop : first.operation with
        | split color key =>
            simp only [hop] at hjob
            obtain ⟨color, hcolor, rfl⟩ := List.mem_map.mp hjob
            rw [(order.perm_keys _).mem_iff, List.mem_eraseDups] at hcolor
            obtain ⟨l, hl, rfl⟩ := List.mem_map.mp hcolor
            have hsources : ∀ l ∈ (first :: others).filterMap (·.toSplit),
                c.tables.members[l.rank]? = some l.source := fun l hl =>
              (Server.exists_split_request hround hl).choose_spec.2.2.2
            have hof : l.source ∈ (Server.ofColor ((first :: others).filterMap (·.toSplit))
                l.color).map (·.source) :=
              List.mem_map_of_mem (List.mem_filter.mpr ⟨hl, decide_eq_true rfl⟩)
            refine List.ne_nil_of_mem (a := l.source) ?_
            unfold Server.Communicator.colorJob
            split
            · rw [Server.Job.audience, Server.map_destination_splitReplies]
              exact (Server.colorPids_perm hsources).mem_iff.mpr hof
            · simpa [Server.Job.audience, Server.simplifiedSplitReply] using hof
        | group pids =>
            simp only [hop] at hjob halone
            unfold Server.Communicator.groupJobs at hjob halone
            split at hjob
            · cases hjob
            · rename_i hgroups
              simp only [hgroups] at halone
              split at hjob
              · rename_i hsame
                rw [if_pos hsame] at halone
                rw [List.mem_singleton] at hjob
                exact halone (by rw [hjob])
              · cases hjob
        | dup =>
            simp only [hop] at hjob halone
            rw [Server.Communicator.dupJobs, List.mem_singleton] at hjob
            exact halone (by rw [hjob]; rfl)
        | free => rw [hop] at hfirst; exact hfirst.elim
        | finalize => rw [hop] at hfirst; exact hfirst.elim
      · cases hjob

/-- No thread has a job without replies. -/
def EveryJobTells (s : Application) : Prop :=
  ∀ n, ∀ job ∈ s.base.work n, job.audience ≠ []

theorem everyJobTells_deliver (hinv : Inv cfg s) (h : s.EveryJobTells)
    {before after : List Server.CommunicatorRequest}
    (hrequest : s.base.requests req.source = before ++ req :: after) :
    (s.deliver cfg order req (before ++ after)).EveryJobTells := by
  obtain ⟨rfl, rfl, hsent, hknown⟩ := sent_of_request hinv hrequest
  intro n job hjob
  simp only [deliver, Concurrent.deliver, Function.update_apply] at hjob
  split at hjob
  · rcases @Server.admitRequest_cases cfg order s.base.server req with
      hsame | ⟨c, hlive, hfree, ⟨_, hentry⟩ | ⟨hfull, hentry⟩⟩
    · rw [hsame] at hjob
      cases hjob
    · rw [hentry] at hjob
      cases hjob
    · rw [hentry] at hjob
      cases deliveryCase hinv hsent hknown with
      | dropped hreserved hunknown =>
          rw [hunknown] at hlive
          cases hlive
      | stored c' hlive' hfree' hmember hlegal hroom =>
          rw [hlive] at hlive'
          cases hlive'
          exact absurd hfull hroom
      | begun c' hlive' hfree' hmember hlegal hfull' =>
          rw [hlive] at hlive'
          cases hlive'
          have hslots := hinv.slots _ c hlive
          obtain ⟨hround, hrequests⟩ :=
            hslots.isRound (hinv.base.kept _ c hlive) hfree hfull hmember
          refine audience_ne_nil hround hslots.valid hslots.tables ?_ job hjob
          intro m hm
          rcases hrequests m hm with rfl | ⟨r, hr⟩
          · exact hlegal
          · exact (hslots.slot r m hr).2.2.2
  · exact h n job hjob

theorem everyJobTells_step (hinv : Inv cfg s) (h : s.EveryJobTells)
    (hstep : Step cfg order s s') : s'.EveryJobTells := by
  cases hstep with
  | deliver hrequest hmonitor => exact everyJobTells_deliver hinv h hrequest
  | @perform n job jobs hwork =>
      obtain ⟨t, requests, server, ms, _, hrun, _⟩ := working_of_audience hinv hwork
      intro i job' hjob'
      simp only [perform, Concurrent.perform, hrun, Function.update_apply] at hjob'
      split at hjob'
      · refine h n job' ?_
        rw [hwork]
        exact List.mem_cons_of_mem _ hjob'
      · exact h i job' hjob'
  | call hphase hp hc hlegal => exact h
  | accept hphase hp hc hreply hcomm => exact h
  | halt hphase => exact h
  | send hphase hp hc hm => exact h
  | forward hm => exact h
  | take hphase hm => exact h

/-! ## Only requests that agree are answered -/

/-- Requests that have been answered, or are worked on, have been made by all members alike. -/
structure AnswersAgree (s : Application) : Prop where
  answered : ∀ h t, s.Live h t → ∀ q ∈ t.members, ∀ k < s.answers h q, s.AllIssued h t.members k
  working : ∀ h t, s.Live h t → ∀ q ∈ t.members, ∀ op, s.phase q = .working ⟨h, op⟩ →
    s.AllIssued h t.members (s.answers h q)
  unknown : ∀ h, ReservedHandle h → ∀ q, s.answers h q = 0

/-- What all members have asked for alike stays so. -/
theorem AllIssued.mono {h k : Nat} {members : List Pid} (hall : s.AllIssued h members k)
    (hmono : ∀ q, s.issued h q <+: s'.issued h q) : s'.AllIssued h members k := by
  have hget : ∀ q ∈ members, (s'.issued h q)[k]? = (s.issued h q)[k]? := by
    intro q hq
    obtain ⟨rest, hrest⟩ := hmono q
    rw [← hrest, List.getElem?_append_left (hall.1 q hq)]
  refine ⟨fun q hq => Nat.lt_of_lt_of_le (hall.1 q hq) (hmono q).length_le, ?_⟩
  intro q hq q' hq' op op' hop hop'
  rw [hget q hq] at hop
  rw [hget q' hq'] at hop'
  exact hall.2 q hq q' hq' op op' hop hop'

/-- A step that answers nobody and begins no operation. -/
theorem AnswersAgree.congr (h : s.AnswersAgree) (hanswers : s'.answers = s.answers)
    (hissued : ∀ i q, s.issued i q <+: s'.issued i q)
    (hlive : ∀ i t, s'.Live i t → s.Live i t)
    (hworking : ∀ i q op, s'.phase q = .working ⟨i, op⟩ → s.phase q = .working ⟨i, op⟩) :
    s'.AnswersAgree where
  answered := by
    intro i t hl q hq k hk
    rw [hanswers] at hk
    exact (h.answered i t (hlive i t hl) q hq k hk).mono (hissued i)
  working := by
    intro i t hl q hq op hop
    rw [hanswers]
    exact (h.working i t (hlive i t hl) q hq op (hworking i q op hop)).mono (hissued i)
  unknown := by
    rw [hanswers]
    exact h.unknown

/-- Legal requests with one opcode and one group ask for the same. -/
theorem same_of_agree {members : List Pid} {m m' : Server.CommunicatorRequest}
    (hlegal : m.operation.Legal members) (hopcode : m.operation.opcode = m'.operation.opcode)
    (hgroup : m.toGroup = m'.toGroup) : m.operation.Same m'.operation := by
  unfold Server.CommunicatorRequest.toGroup at hgroup
  cases hop : m.operation <;> cases hop' : m'.operation <;>
    simp_all [Server.Operation.Same, Server.Operation.opcode, Server.Operation.Legal]

/-- **An operation that answers somebody** has been asked for by all members alike. -/
theorem answersAgree_begun {c : Server.Communicator} (hinv : Inv cfg s) (hcalls : s.CallsInv)
    (h : s.AnswersAgree)
    (hsent : s.phase req.source = .sent ⟨req.communicator, req.operation⟩)
    (hlive : s.base.server[req.communicator]? = some (some c))
    (hfree : c.messages[req.rank]? = some none)
    (hmember : c.tables.members[req.rank]? = some req.source)
    (hlegal : req.operation.Legal c.tables.members) (hfull : c.participants + 1 = c.size)
    (hlive' : ∀ i t, (s.deliver cfg order req []).Live i t → s.Live i t) :
    (s.deliver cfg order req []).AnswersAgree := by
  refine ⟨fun i t hl q hq k hk => h.answered i t (hlive' i t hl) q hq k hk, ?_, h.unknown⟩
  intro i t hl q hq op hop
  have hslots := hinv.slots _ c hlive
  obtain ⟨hround, hrequests⟩ := hslots.isRound (hinv.base.kept _ c hlive) hfree hfull hmember
  obtain ⟨hmove, _⟩ := @moves_begun cfg order s c req hinv hsent hlive hfree hmember hfull
  have hissued := issued_of_begun hinv hcalls hsent hlive hfree hmember hfull
  simp only [deliver, @delivery_begun cfg order s c req hlive hfree hfull] at hop
  split at hop
  · rename_i hsource
    obtain ⟨m, hm, rfl⟩ := List.mem_map.mp hsource
    rw [hmove m hm] at hop
    split at hop
    · rename_i haudience
      cases hop
      obtain rfl := live_unique (hlive' _ t hl) ⟨c, hlive, rfl⟩
      -- the requests agree, or there would be no jobs
      have hjobs : (c.store req).jobs cfg order (c.store req).requests ≠ [] := by
        intro hnil
        rw [hnil] at haudience
        cases haudience
      have hagree := Server.agree_of_jobs_ne_nil hjobs
      have hlegals : ∀ m ∈ (c.store req).requests, m.operation.Legal c.tables.members := by
        intro m hm
        rcases hrequests m hm with rfl | ⟨r, hr⟩
        · exact hlegal
        · exact (hslots.slot r m hr).2.2.2
      have hasked : ∀ q ∈ c.tables.members, ∃ m ∈ (c.store req).requests, m.source = q := by
        intro q hq
        exact List.mem_map.mp (hround.map_source ▸ hq)
      have hanswers : s.answers req.communicator m.source = s.rounds req.communicator := by
        have hwaits : (s.phase m.source).waits req.communicator = [m.operation] := by
          rcases (hissued m hm).1 with hphase | hphase <;> rw [hphase] <;> simp [Phase.waits]
        have hlength := (hcalls.issued_eq hwaits).1
        rw [(hissued m hm).2.1] at hlength
        omega
      change s.AllIssued req.communicator c.tables.members (s.answers req.communicator m.source)
      rw [hanswers]
      constructor
      · intro q' hq'
        obtain ⟨m', hm', rfl⟩ := hasked q' hq'
        rw [(hissued m' hm').2.1]
        exact Nat.lt_succ_self _
      · intro q₁ hq₁ q₂ hq₂ op₁ op₂ hop₁ hop₂
        obtain ⟨m₁, hm₁, rfl⟩ := hasked q₁ hq₁
        obtain ⟨m₂, hm₂, rfl⟩ := hasked q₂ hq₂
        rw [(hissued m₁ hm₁).2.2, Option.some.injEq] at hop₁
        rw [(hissued m₂ hm₂).2.2, Option.some.injEq] at hop₂
        subst hop₁ hop₂
        obtain ⟨hopcode, hgroup⟩ := hagree m₁ hm₁ m₂ hm₂
        exact same_of_agree (hlegals m₁ hm₁) hopcode hgroup
    · cases hop
  · exact h.working i t (hlive' i t hl) q hq op hop

/-- A process that the server leaves where it is, or does not work on. -/
theorem answersAgree_deliver (hinv : Inv cfg s) (hcalls : s.CallsInv) (h : s.AnswersAgree)
    {before after : List Server.CommunicatorRequest}
    (hrequest : s.base.requests req.source = before ++ req :: after) :
    (s.deliver cfg order req (before ++ after)).AnswersAgree := by
  obtain ⟨rfl, rfl, hsent, hknown⟩ := sent_of_request hinv hrequest
  have hlive' : ∀ i t, (s.deliver cfg order req []).Live i t → s.Live i t := by
    intro i t hl
    rcases @Server.admitRequest_cases cfg order s.base.server req with
      hsame | ⟨c, hlive, _, ⟨_, hentry⟩ | ⟨_, hentry⟩⟩
    · simp only [Live, deliver, Concurrent.deliver, hsame] at hl
      exact hl
    · simp only [Live, deliver, Concurrent.deliver, hentry, hinv.base.numbered _ _ hlive] at hl
      exact (live_set hlive (by rfl) i t).mp hl
    · simp only [Live, deliver, Concurrent.deliver, hentry, hinv.base.numbered _ _ hlive] at hl
      exact (live_set hlive (by rfl) i t).mp hl
  have hof : ∀ (ph : Phase), (∀ i op, ph ≠ .working ⟨i, op⟩) → ∀ i q op,
      Function.update s.phase req.source ph q = .working ⟨i, op⟩ →
        s.phase q = .working ⟨i, op⟩ := by
    intro ph hne i q op hq
    rcases phase_cases hq with heq | hq
    · exact absurd heq.symm (hne i op)
    · exact hq
  cases deliveryCase hinv hsent hknown with
  | dropped hreserved hunknown =>
      refine h.congr rfl (fun _ _ => List.prefix_rfl) hlive' ?_
      simp only [deliver, delivery_dropped hsent hunknown]
      exact hof _ (by rintro _ _ ⟨⟩)
  | stored c hlive hfree hmember hlegal hroom =>
      refine h.congr rfl (fun _ _ => List.prefix_rfl) hlive' ?_
      simp only [deliver, delivery_stored hsent hlive hfree hroom]
      exact hof _ (by rintro _ _ ⟨⟩)
  | begun c hlive hfree hmember hlegal hfull =>
      exact answersAgree_begun hinv hcalls h hsent hlive hfree hmember hlegal hfull hlive'

theorem answersAgree_perform (hinv : Inv cfg s) (hcalls : s.CallsInv) (h : s.AnswersAgree)
    {job : Server.Job} {jobs : List Server.Job} (hwork : s.base.work n = job :: jobs) :
    (s.perform cfg n job jobs).AnswersAgree := by
  obtain ⟨t, requests, server, ms, hl, hrun, heffect, _, hrequests, hnodup⟩ :=
    working_of_audience hinv hwork
  obtain ⟨_, hreplied⟩ := @replied_perform cfg s n job jobs t requests server ms hrun heffect
    hrequests
  rw [List.flatMap_cons, List.nodup_append, ← heffect.destinations] at hnodup
  have hissued : (s.perform cfg n job jobs).issued = s.issued := by
    simp only [perform, hrun]
  have hanswers : ∀ i q, (s.perform cfg n job jobs).answers i q =
      s.answers i q + if i = n then (ms.map Server.Reply.destination).count q else 0 := by
    intro i q
    simp only [perform, hrun, Function.update_apply]
    split
    · rename_i hi
      subst hi
      rfl
    · rfl
  have hsame : ∀ {i : Nat} {members : List Pid} {k : Nat}, s.AllIssued i members k →
      (s.perform cfg n job jobs).AllIssued i members k := by
    intro i members k hall
    exact hall.mono fun q => by rw [hissued]
  have hlive : ∀ i t, (s.perform cfg n job jobs).Live i t →
      s.Live i t ∨ i = s.base.server.length := by
    intro i t hl
    simp only [Live, perform, Concurrent.perform, hrun] at hl
    obtain ⟨c, hc, ht⟩ := hl
    rcases heffect.server with rfl | ⟨pids, _, rfl, _⟩
    · exact Or.inl ⟨c, hc, ht⟩
    · exact (getElem?_concat_cases hc).imp (fun hc => ⟨c, hc, ht⟩) fun h => h.1
  have hlt : n < s.base.server.length := by
    obtain ⟨c, hc, _⟩ := hl
    exact (List.getElem?_eq_some_iff.mp hc).1
  refine ⟨?_, ?_, ?_⟩
  · intro i t' hl' q hq k hk
    rw [hanswers] at hk
    rcases hlive i t' hl' with hknown | rfl
    · by_cases hold : k < s.answers i q
      · exact hsame (h.answered i t' hknown q hq k hold)
      · -- the answer that the job has sent
        split at hk
        · rename_i hi
          subst hi
          have hmem : q ∈ ms.map Server.Reply.destination :=
            List.count_pos_iff.mp (by omega)
          rw [List.count_eq_one_of_mem hnodup.1 hmem] at hk
          obtain ⟨m, hm, rfl⟩ := List.mem_map.mp hmem
          obtain ⟨op, hworking, _⟩ := hreplied.self m hm
          have hall := hsame (h.working i t' hknown _ hq op hworking)
          have heq : k = s.answers i m.destination := by omega
          rwa [heq]
        · exact absurd hk hold
    · rw [if_neg (by omega), Nat.add_zero] at hk
      have hle := hcalls.answers_le s.base.server.length q
      rw [(hcalls.absent _ (Nat.le_refl _)).2 q] at hle
      exact absurd (Nat.lt_of_lt_of_le hk hle) (Nat.not_lt_zero k)
  · intro i t' hl' q hq op hop
    have hnot : q ∉ ms.map Server.Reply.destination := by
      intro hmem
      obtain ⟨m, hm, rfl⟩ := List.mem_map.mp hmem
      obtain ⟨_, _, hanswered⟩ := hreplied.self m hm
      rw [hanswered] at hop
      cases hop
    rw [hreplied.others q hnot] at hop
    rw [hanswers, List.count_eq_zero_of_not_mem hnot, ite_self, Nat.add_zero]
    rcases hlive i t' hl' with hl' | rfl
    · exact hsame (h.working i t' hl' q hq op hop)
    · have hwaits := hcalls.waits_absent (Nat.le_refl _) q
      rw [hop] at hwaits
      simp [Phase.waits] at hwaits
  · intro i hi q
    have hne : i ≠ n := by
      rintro rfl
      exact not_reserved hinv hl hi
    rw [hanswers, if_neg hne, h.unknown i hi q]

theorem answersAgree_step (hinv : Inv cfg s) (hcalls : s.CallsInv) (h : s.AnswersAgree)
    (hstep : Step cfg order s s') : s'.AnswersAgree := by
  have hof : ∀ (q' : Pid) (ph : Phase), (∀ i op, ph ≠ .working ⟨i, op⟩) → ∀ i q op,
      Function.update s.phase q' ph q = .working ⟨i, op⟩ → s.phase q = .working ⟨i, op⟩ := by
    intro q' ph hne i q op hq
    rcases phase_cases hq with heq | hq
    · exact absurd heq.symm (hne i op)
    · exact hq
  cases hstep with
  | deliver hrequest hmonitor => exact answersAgree_deliver hinv hcalls h hrequest
  | perform hwork => exact answersAgree_perform hinv hcalls h hwork
  | @call pid p c handle op hphase hp hc hlegal =>
      refine h.congr rfl ?_ (fun _ _ hl => hl) (hof pid _ (by rintro _ _ ⟨⟩))
      intro i q
      simp only [call, Function.update_apply]
      split
      · rename_i hi
        subst hi
        rw [Function.update_apply]
        split
        · rename_i hq
          subst hq
          exact List.prefix_append _ _
        · exact List.prefix_rfl
      · exact List.prefix_rfl
  | accept hphase hp hc hreply hcomm =>
      exact h.congr rfl (fun _ _ => List.prefix_rfl) (fun _ _ hl => hl)
        (hof _ _ (by rintro _ _ ⟨⟩))
  | halt hphase =>
      exact h.congr rfl (fun _ _ => List.prefix_rfl) (fun _ _ hl => hl)
        (hof _ _ (by rintro _ _ ⟨⟩))
  | send hphase hp hc hm =>
      exact h.congr rfl (fun _ _ => List.prefix_rfl) (fun _ _ hl => hl) fun _ _ _ h => h
  | forward hm =>
      exact h.congr rfl (fun _ _ => List.prefix_rfl) (fun _ _ hl => hl) fun _ _ _ h => h
  | take hphase hm =>
      exact h.congr rfl (fun _ _ => List.prefix_rfl) (fun _ _ hl => hl) fun _ _ _ h => h

/-! ## The steps left -/

/-- **The steps left** for all calls. -/
noncomputable def stepsLeft (s : Application) : Nat :=
  ∑ pid ∈ pids, (s.phase pid).stepsLeft

/-- One process gets further, and the others are not thrown back. -/
theorem stepsLeft_lt {q : Pid} (hself : (s'.phase q).stepsLeft < (s.phase q).stepsLeft)
    (hothers : ∀ p, (s'.phase p).stepsLeft ≤ (s.phase p).stepsLeft) :
    s'.stepsLeft < s.stepsLeft :=
  Finset.sum_lt_sum (fun p _ => hothers p) ⟨q, mem_pids q, hself⟩

/-- What a delivery does to the phases. -/
theorem moves_deliver (hinv : Inv cfg s)
    (hsent : s.phase req.source = .sent ⟨req.communicator, req.operation⟩)
    (hknown : ReservedHandle req.communicator ∨ ∃ t, s.Live req.communicator t ∧
      t.members[req.rank]? = some req.source ∧ req.operation.Legal t.members) :
    Moves s.phase (s.delivery cfg order req).phase req.source := by
  cases deliveryCase hinv hsent hknown with
  | dropped hreserved hunknown =>
      rw [delivery_dropped hsent hunknown]
      exact moves_update ⟨_, Or.inr (Or.inr rfl)⟩
  | stored c hlive hfree hmember hlegal hroom =>
      rw [delivery_stored hsent hlive hfree hroom]
      exact moves_update ⟨_, Or.inl rfl⟩
  | begun c hlive hfree hmember hlegal hfull =>
      exact (moves_begun hinv hsent hlive hfree hmember hfull).2

/-- **Whatever is done**, less is left to do. -/
theorem Serves.stepsLeft_lt (hinv : Inv cfg s) (htells : s.EveryJobTells)
    (h : Serves cfg order s s') : s'.stepsLeft < s.stepsLeft := by
  cases h with
  | @deliver req before after hrequest hmonitor =>
      obtain ⟨_, _, hsent, hknown⟩ := sent_of_request hinv hrequest
      have hmoves := @moves_deliver cfg order s req hinv hsent hknown
      have hself : ((s.delivery cfg order req).phase req.source).stepsLeft <
          (s.phase req.source).stepsLeft := by
        obtain ⟨call, h | h | h⟩ := hmoves.self <;> rw [h, hsent] <;> simp [Phase.stepsLeft]
      refine Application.stepsLeft_lt hself fun p => ?_
      by_cases hp : p = req.source
      · subst hp
        exact Nat.le_of_lt hself
      · rcases hmoves.others p hp with h | ⟨_, _, hstored, h | h⟩
        · exact Nat.le_of_eq (congrArg Phase.stepsLeft h)
        · simp only [Application.deliver, h, hstored, Phase.stepsLeft, Nat.le_refl]
        · simp only [Application.deliver, h, Phase.stepsLeft, Nat.zero_le]
  | @perform n job jobs hwork =>
      obtain ⟨t, requests, server, ms, _, hrun, heffect, _, hrequests, _⟩ :=
        working_of_audience hinv hwork
      obtain ⟨_, hreplied⟩ := @replied_perform cfg s n job jobs t requests server ms hrun heffect
        hrequests
      obtain ⟨q, hq⟩ := List.exists_mem_of_ne_nil _
        (htells n job (by rw [hwork]; exact List.mem_cons_self))
      rw [← heffect.destinations] at hq
      have hanswered : ∀ p ∈ ms.map Server.Reply.destination,
          ((s.perform cfg n job jobs).phase p).stepsLeft < (s.phase p).stepsLeft := by
        intro p hp
        obtain ⟨m, hm, rfl⟩ := List.mem_map.mp hp
        obtain ⟨op, hworking, hanswered⟩ := hreplied.self m hm
        rw [hworking, hanswered]
        exact Nat.lt_succ_self 1
      refine Application.stepsLeft_lt (hanswered q hq) fun p => ?_
      by_cases hp : p ∈ ms.map Server.Reply.destination
      · exact Nat.le_of_lt (hanswered p hp)
      · exact Nat.le_of_eq (congrArg Phase.stepsLeft (hreplied.others p hp))
  | @accept pid p c call body before after comm hphase hp hc hreply hcomm =>
      refine Application.stepsLeft_lt (q := pid) ?_ fun q => ?_
      · simp only [Application.accept, Function.update_self, hphase, Phase.stepsLeft]
        exact Nat.one_pos
      · by_cases hq : q = pid
        · subst hq
          simp only [Application.accept, Function.update_self, Phase.stepsLeft, Nat.zero_le]
        · simp only [Application.accept, Function.update_of_ne hq, Nat.le_refl]

/-! ## Where nothing more can be done -/

/-- A request on its way can be delivered, a job done and a reply taken. -/
theorem exists_serves (hinv : Inv cfg s) (hknow : s.CallersKnow)
    (hleft : (∃ pid, s.base.requests pid ≠ []) ∨ (∃ n, s.base.work n ≠ []) ∨
      ∃ pid call, s.phase pid = .answered call) : ∃ t, Serves cfg order s t := by
  by_cases hwork : ∃ n, s.base.work n ≠ []
  · obtain ⟨n, hwork⟩ := hwork
    obtain ⟨job, jobs, hjobs⟩ := List.exists_cons_of_ne_nil hwork
    exact ⟨_, .perform hjobs⟩
  · push Not at hwork
    rcases hleft with ⟨pid, hrequests⟩ | ⟨n, hn⟩ | ⟨pid, call, hphase⟩
    · obtain ⟨req, after, hreq⟩ := List.exists_cons_of_ne_nil hrequests
      have hsource : req.source = pid := by
        have hinvariant := hinv.requests pid
        cases hphase : s.phase pid with
        | sent call =>
            rw [hphase] at hinvariant
            obtain ⟨rank, hone, _⟩ := hinvariant
            rw [hreq] at hone
            cases hone
            rfl
        | _ =>
            rw [hphase] at hinvariant
            exact absurd hinvariant hrequests
      subst hsource
      have hrequest : s.base.requests req.source = [] ++ req :: after := hreq
      exact ⟨_, .deliver hrequest (hwork req.communicator)⟩
    · exact absurd (hwork n) hn
    · obtain ⟨p, c, hp, hc⟩ := hknow pid call (by rw [hphase]; rfl)
      have hreplies := hinv.replies pid
      rw [hphase] at hreplies
      obtain ⟨body, t, hone, _⟩ := hreplies
      obtain ⟨comm, hcomm⟩ := exists_returns p call.operation body
      have hreply : s.base.replies pid = [] ++ body :: [] := hone
      exact ⟨_, .accept hphase hp hc hreply hcomm⟩

/-- **Where nothing more can be done**, the calls have come to their end. -/
theorem settled_or_serves (hinv : Inv cfg s) (hcalls : s.CallsInv) (hknow : s.CallersKnow)
    (hagree : s.AnswersAgree) : s.Settled ∨ ∃ t, Serves cfg order s t := by
  by_cases hleft : (∃ pid, s.base.requests pid ≠ []) ∨ (∃ n, s.base.work n ≠ []) ∨
      ∃ pid call, s.phase pid = .answered call
  · exact Or.inr (exists_serves hinv hknow hleft)
  · left
    push Not at hleft
    obtain ⟨hrequests, hwork, hanswered⟩ := hleft
    refine ⟨hrequests, hwork, ?_, ?_, ?_, hagree.unknown⟩
    · intro pid hne
      have hreplies := hinv.replies pid
      cases hphase : s.phase pid with
      | answered call => exact absurd hphase (hanswered pid call)
      | ended => exact absurd hphase hne
      | _ =>
          rw [hphase] at hreplies
          exact hreplies
    · intro pid call hcall
      cases hphase : s.phase pid with
      | sent call' =>
          have hinvariant := hinv.requests pid
          rw [hphase] at hinvariant
          obtain ⟨rank, hone, _⟩ := hinvariant
          rw [hrequests pid] at hone
          cases hone
      | working call' =>
          have haudience := hcalls.working call'.handle pid call'.operation hphase
          rw [hwork] at haudience
          cases haudience
      | stored call' =>
          rw [hphase] at hcall
          exact Or.inl (congrArg _ (Option.some.inj hcall))
      | lost call' =>
          rw [hphase] at hcall
          exact Or.inr (congrArg _ (Option.some.inj hcall))
      | answered call' => exact absurd hphase (hanswered pid call')
      | running => rw [hphase] at hcall; cases hcall
      | ended => rw [hphase] at hcall; cases hcall
    · intro h t hl pid hpid k
      refine ⟨hagree.answered h t hl pid hpid k, fun hissued => ?_⟩
      refine answered_of_processed hinv hcalls hl hissued ⟨fun q hq => ?_, Or.inl (hwork h)⟩ pid hpid
      rw [hrequests q]
      exact hissued.1 q hq

/-- Every run keeps what it takes. -/
theorem servable_of_reachable (h : Reachable cfg order s) :
    s.CallersKnow ∧ s.EveryJobTells ∧ s.AnswersAgree := by
  obtain ⟨server, hserver, hrun⟩ := h
  induction hrun with
  | refl =>
      refine ⟨?_, ?_, ?_, ?_, fun _ _ _ => rfl⟩
      · intro pid call hcall
        cases hcall
      · intro n job hjob
        cases hjob
      · intro h t _ q _ k hk
        cases hk
      · intro h t _ q _ op hq
        cases hq
  | tail hrun hstep ih =>
      obtain ⟨hknow, htells, hagree⟩ := ih
      have hreach : Reachable cfg order _ := ⟨server, hserver, hrun⟩
      have hinv := inv_of_reachable hreach
      exact ⟨callersKnow_step hknow hstep, everyJobTells_step hinv htells hstep,
        answersAgree_step hinv (callsInv_of_reachable hreach) hagree hstep⟩

theorem Serves.issued_eq (h : Serves cfg order s s') : s'.issued = s.issued := by
  cases h with
  | deliver hrequest hmonitor => rfl
  | perform hwork =>
      unfold Application.perform
      split <;> rfl
  | accept hphase hp hc hreply hcomm => rfl

/-- **Calls come to their end**: in every order of the steps, and a request has been answered
if and only if all members have made it alike. -/
theorem settles (cfg : Server.Config) (order : Server.HashOrder) : Settles cfg order := by
  intro s hs
  refine endsIn_of_measure (I := fun t => Reachable cfg order t ∧ t.issued = s.issued)
    (μ := stepsLeft) ⟨hs, rfl⟩ ?_ ?_
  · rintro t t' ⟨ht, hissued⟩ hserves
    obtain ⟨_, htells, _⟩ := servable_of_reachable ht
    have hlt := hserves.stepsLeft_lt (inv_of_reachable ht) htells
    obtain ⟨server, hserver, hrun⟩ := ht
    exact ⟨⟨⟨server, hserver, hrun.tail hserves.isStep⟩, hserves.issued_eq.trans hissued⟩, hlt⟩
  · rintro t ⟨ht, hissued⟩
    obtain ⟨hknow, _, hagree⟩ := servable_of_reachable ht
    exact (settled_or_serves (inv_of_reachable ht) (callsInv_of_reachable ht) hknow
      hagree).imp_left fun hsettled => ⟨hissued, hsettled⟩

end Application

end EsalsaMpi
