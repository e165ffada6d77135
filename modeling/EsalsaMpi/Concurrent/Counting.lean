import EsalsaMpi.Concurrent.Delivery

/-!
# Requests, operations and answers

`Application` records what every process has asked for on every handle, how
many of its requests have been answered, and how many operations the server has
begun on every communicator.  `CallsInv` relates these records to the phases:
the only request without an answer is the one that its process waits for, and
the operation with number `k` is about the request number `k` of every member.
-/

namespace EsalsaMpi

namespace Phase

/-- What the process waits for on the handle `h`, without an answer so far. -/
def waits (h : Nat) : Phase → List Server.Operation
  | .sent call | .stored call | .working call | .lost call =>
    if call.handle = h then [call.operation] else []
  | _ => []

/-- The number of requests on the handle `h` that no operation has begun with. -/
def arriving (h : Nat) : Phase → Nat
  | .sent call | .stored call => if call.handle = h then 1 else 0
  | _ => 0

theorem arriving_le (h : Nat) (ph : Phase) : ph.arriving h ≤ (ph.waits h).length := by
  cases ph <;> simp only [arriving, waits, List.length_nil, Nat.le_refl] <;> split <;> simp

/-- Where the request is that a process waits for. -/
theorem waits_cases (h : Nat) (ph : Phase) : ph.waits h = [] ∨ ∃ op, ph.waits h = [op] ∧
    (ph = .sent ⟨h, op⟩ ∨ ph = .stored ⟨h, op⟩ ∨ ph = .working ⟨h, op⟩ ∨ ph = .lost ⟨h, op⟩) := by
  have hcall : ∀ call : Call, (if call.handle = h then [call.operation] else []) = [] ∨
      call = ⟨h, call.operation⟩ ∧
        (if call.handle = h then [call.operation] else []) = [call.operation] := by
    intro call
    by_cases hh : call.handle = h
    · subst hh
      exact Or.inr ⟨rfl, if_pos rfl⟩
    · exact Or.inl (if_neg hh)
  cases ph with
  | sent call => exact (hcall call).imp_right fun ⟨h, hw⟩ => ⟨_, hw, Or.inl (congrArg _ h)⟩
  | stored call =>
      exact (hcall call).imp_right fun ⟨h, hw⟩ => ⟨_, hw, Or.inr (Or.inl (congrArg _ h))⟩
  | working call =>
      exact (hcall call).imp_right fun ⟨h, hw⟩ =>
        ⟨_, hw, Or.inr (Or.inr (Or.inl (congrArg _ h)))⟩
  | lost call =>
      exact (hcall call).imp_right fun ⟨h, hw⟩ =>
        ⟨_, hw, Or.inr (Or.inr (Or.inr (congrArg _ h)))⟩
  | running => exact Or.inl rfl
  | answered call => exact Or.inl rfl
  | ended => exact Or.inl rfl

end Phase

/-- Two processes ask for the same: both for a split, both for the same group,
or both for a dup. -/
def Server.Operation.Same : Server.Operation → Server.Operation → Prop
  | .split _ _, .split _ _ => True
  | .group pids, .group pids' => pids = pids'
  | .dup, .dup => True
  | _, _ => False

/-- Requests for the same agree. -/
theorem Server.Operation.Same.agree {m m' : Server.CommunicatorRequest}
    (h : m.operation.Same m'.operation) :
    m.operation.opcode = m'.operation.opcode ∧ m.toGroup = m'.toGroup := by
  unfold Server.CommunicatorRequest.toGroup
  cases hop : m.operation <;> cases hop' : m'.operation <;>
    simp only [hop, hop', Server.Operation.Same] at h
  · exact ⟨rfl, rfl⟩
  · subst h
    exact ⟨rfl, rfl⟩
  · exact ⟨rfl, rfl⟩

namespace Application

variable {cfg : Server.Config} {order : Server.HashOrder} {s s' : Application} {pid : Pid}
  {n : Nat} {c : Server.Communicator} {req : Server.CommunicatorRequest}

/-- Two of `members` have asked for something else with their request number
`k`. -/
def Disagree (issued : Pid → List Server.Operation) (members : List Pid) (k : Nat) : Prop :=
  ∃ q ∈ members, ∃ q' ∈ members, ∃ op op', (issued q)[k]? = some op ∧
    (issued q')[k]? = some op' ∧ ¬ op.Same op'

/-- The records of a run, given the phases and what happens at the server. -/
structure CallsInv (s : Application) : Prop where
  answers_le : ∀ h q, s.answers h q ≤ (s.issued h q).length
  waiting : ∀ h q, (s.issued h q).drop (s.answers h q) = (s.phase q).waits h
  begun : ∀ n t, s.Live n t → ∀ q ∈ t.members,
    (s.issued n q).length = s.rounds n + (s.phase q).arriving n
  absent : ∀ n, s.base.server.length ≤ n → s.rounds n = 0 ∧ ∀ q, s.issued n q = []
  stored : ∀ (n : Nat) c, s.base.server[n]? = some (some c) → ∀ q op,
    s.phase q = .stored ⟨n, op⟩ → ∃ (r : Nat) (m : Server.CommunicatorRequest),
      c.messages[r]? = some (some m) ∧ m.source = q
  working : ∀ n q op, s.phase q = .working ⟨n, op⟩ →
    q ∈ (s.base.work n).flatMap Server.Job.audience
  lost : ∀ n t, s.Live n t → ∀ q op, s.phase q = .lost ⟨n, op⟩ →
    ∃ k, (s.issued n q).length = k + 1 ∧ Disagree (s.issued n) t.members k
  dropped : ∀ req ∈ s.dropped, ReservedHandle req.communicator

/-- A process that waits on `h` has asked for this last. -/
theorem CallsInv.issued_eq (h : s.CallsInv) {op : Server.Operation} {i : Nat}
    (hwaits : (s.phase pid).waits i = [op]) :
    (s.issued i pid).length = s.answers i pid + 1 ∧
      (s.issued i pid)[s.answers i pid]? = some op := by
  have hdrop := h.waiting i pid
  rw [hwaits] at hdrop
  constructor
  · have hlength := congrArg List.length hdrop
    have hle := h.answers_le i pid
    rw [List.length_drop, List.length_singleton] at hlength
    omega
  · have hget : ((s.issued i pid).drop (s.answers i pid))[0]? = some op := by
      rw [hdrop]
      rfl
    rwa [List.getElem?_drop, Nat.add_zero] at hget

/-- A process that waits for nothing on `h` has been answered. -/
theorem CallsInv.answers_eq (h : s.CallsInv) {i : Nat} (hwaits : (s.phase pid).waits i = []) :
    s.answers i pid = (s.issued i pid).length := by
  have hdrop := h.waiting i pid
  rw [hwaits, List.drop_eq_nil_iff] at hdrop
  exact Nat.le_antisymm (h.answers_le i pid) hdrop

/-- Nobody waits on a handle without requests. -/
theorem CallsInv.waits_absent (h : s.CallsInv) (hn : s.base.server.length ≤ n) (q : Pid) :
    (s.phase q).waits n = [] := by
  rw [← h.waiting, (h.absent n hn).2 q, List.drop_nil]

/-! ## The steps of a process -/

/-- More requests on a handle do not make members agree on earlier ones. -/
theorem Disagree.mono {issued issued' : Pid → List Server.Operation} {members : List Pid} {k : Nat}
    (h : Disagree issued members k) (hmono : ∀ q, issued q <+: issued' q) :
    Disagree issued' members k := by
  obtain ⟨q, hq, q', hq', op, op', hop, hop', hne⟩ := h
  have hget : ∀ q op, (issued q)[k]? = some op → (issued' q)[k]? = some op := by
    intro q op hop
    obtain ⟨rest, hrest⟩ := hmono q
    rw [← hrest, List.getElem?_append_left (List.getElem?_eq_some_iff.mp hop).1, hop]
  exact ⟨q, hq, q', hq', op, op', hget q op hop, hget q' op' hop', hne⟩

/-- What the records say when every process waits for what it did before. -/
theorem CallsInv.congr (h : s.CallsInv) (hissued : s'.issued = s.issued)
    (hanswers : s'.answers = s.answers) (hrounds : s'.rounds = s.rounds)
    (hwaits : ∀ q i, (s'.phase q).waits i = (s.phase q).waits i)
    (harriving : ∀ q i, ReservedHandle i ∨ (s'.phase q).arriving i = (s.phase q).arriving i)
    (hlive : ∀ i t, s'.Live i t → s.Live i t)
    (hlength : s.base.server.length = s'.base.server.length)
    (hstored : ∀ (n : Nat) c, s'.base.server[n]? = some (some c) → ∀ q op,
      s'.phase q = .stored ⟨n, op⟩ → ∃ (r : Nat) (m : Server.CommunicatorRequest),
        c.messages[r]? = some (some m) ∧ m.source = q)
    (hworking : ∀ n q op, s'.phase q = .working ⟨n, op⟩ →
      q ∈ (s'.base.work n).flatMap Server.Job.audience)
    (hlost : ∀ n q op, s'.phase q = .lost ⟨n, op⟩ → s.phase q = .lost ⟨n, op⟩ ∨ ReservedHandle n)
    (hreserved : ∀ n t, s.Live n t → ¬ ReservedHandle n)
    (hdropped : ∀ req ∈ s'.dropped, ReservedHandle req.communicator) : s'.CallsInv where
  answers_le := by
    rw [hissued, hanswers]
    exact h.answers_le
  waiting := by
    intro i q
    rw [hissued, hanswers, h.waiting, hwaits q i]
  begun := by
    intro i t hl q hq
    rw [hissued, hrounds, (harriving q i).resolve_left (hreserved i t (hlive i t hl))]
    exact h.begun i t (hlive i t hl) q hq
  absent := by
    intro i hi
    rw [hissued, hrounds]
    exact h.absent i (hlength ▸ hi)
  stored := hstored
  working := hworking
  lost := by
    intro i t hl q op hq
    have hl' := hlive i t hl
    rw [hissued]
    rcases hlost i q op hq with hq | hreserved'
    · exact h.lost i t hl' q op hq
    · exact absurd hreserved' (hreserved i t hl')
  dropped := hdropped

/-- The communicators of the server have other handles. -/
theorem not_reserved (hinv : Inv cfg s) {t : Tables} (hl : s.Live n t) : ¬ ReservedHandle n := by
  obtain ⟨c, hc, _⟩ := hl
  rintro (rfl | rfl)
  · rw [hinv.free.1] at hc
    cases hc
  · rw [hinv.free.2] at hc
    cases hc

/-- A process that is not waiting at the server gets another phase in which it is
not. -/
theorem callsInv_phase (hinv : Inv cfg s) (h : s.CallsInv) {ph : Phase}
    (hidle : s.phase pid = .running ∨ ∃ call, s.phase pid = .answered call)
    (hph : ph = .running ∨ ph = .ended) (hphase : s'.phase = Function.update s.phase pid ph)
    (hserver : s'.base.server = s.base.server) (hwork : s'.base.work = s.base.work)
    (hissued : s'.issued = s.issued) (hanswers : s'.answers = s.answers)
    (hrounds : s'.rounds = s.rounds) (hdropped : s'.dropped = s.dropped) : s'.CallsInv := by
  have hof : ∀ q ph', s'.phase q = ph' → ph' ≠ ph → s.phase q = ph' := by
    intro q ph' hq hne
    rw [hphase] at hq
    by_cases hself : q = pid
    · subst hself
      rw [Function.update_self] at hq
      exact absurd hq.symm hne
    · rwa [Function.update_of_ne hself] at hq
  have hnothing : ∀ q i, (s'.phase q).waits i = (s.phase q).waits i ∧
      (s'.phase q).arriving i = (s.phase q).arriving i := by
    intro q i
    rw [hphase]
    by_cases hself : q = pid
    · subst hself
      rw [Function.update_self]
      rcases hph with rfl | rfl <;> rcases hidle with hidle | ⟨call, hidle⟩ <;> rw [hidle] <;>
        exact ⟨rfl, rfl⟩
    · rw [Function.update_of_ne hself]
      exact ⟨rfl, rfl⟩
  refine h.congr hissued hanswers hrounds (fun q i => (hnothing q i).1)
    (fun q i => Or.inr (hnothing q i).2) ?_ (by rw [hserver]) ?_ ?_ ?_
    (fun n t => not_reserved hinv) (hdropped ▸ h.dropped)
  · intro i t hl
    rwa [Live, hserver] at hl
  · intro i c hc q op hq
    rw [hserver] at hc
    exact h.stored i c hc q op (hof q _ hq (by rcases hph with rfl | rfl <;> rintro ⟨⟩))
  · intro i q op hq
    rw [hwork]
    exact h.working i q op (hof q _ hq (by rcases hph with rfl | rfl <;> rintro ⟨⟩))
  · intro i q op hq
    exact Or.inl (hof q _ hq (by rcases hph with rfl | rfl <;> rintro ⟨⟩))

/-- A process issues a request. -/
theorem callsInv_call (hinv : Inv cfg s) (h : s.CallsInv) {p : Process} {c : Communicator}
    {handle : Nat} {op : Server.Operation} (hphase : s.phase pid = .running)
    (hp : s.base.processes pid = some p) (hc : p.comms handle = some c) :
    (s.call pid p c handle op).CallsInv := by
  have hknown := ((hinv.process pid p hp).known handle c hc).2
  have hlt : handle < s.base.server.length := by
    have hthree := hinv.base.issued.1
    rcases hknown with (h1 | h1) | ⟨⟨c', hc', _⟩, _⟩
    · omega
    · omega
    · exact (List.getElem?_eq_some_iff.mp hc').1
  -- the requests of everybody on every handle
  have hissued : ∀ i q, (s.call pid p c handle op).issued i q =
      s.issued i q ++ if i = handle ∧ q = pid then [op] else [] := by
    intro i q
    simp only [call]
    by_cases hi : i = handle
    · subst hi
      rw [Function.update_self]
      by_cases hq : q = pid
      · subst hq
        simp
      · simp [hq]
    · simp [hi]
  have hof : ∀ q ph, (s.call pid p c handle op).phase q = ph → (∀ call, ph ≠ .sent call) →
      q ≠ pid ∧ s.phase q = ph := by
    intro q ph hq hne
    simp only [call] at hq
    by_cases hself : q = pid
    · subst hself
      rw [Function.update_self] at hq
      exact absurd hq.symm (hne _)
    · rw [Function.update_of_ne hself] at hq
      exact ⟨hself, hq⟩
  have hnone : ∀ i, (s.phase pid).waits i = [] := by
    intro i
    rw [hphase]
    rfl
  refine ⟨?_, ?_, ?_, ?_, ?_, ?_, ?_, h.dropped⟩
  · intro i q
    rw [hissued, List.length_append]
    exact Nat.le_add_right_of_le (h.answers_le i q)
  · intro i q
    by_cases hq : q = pid
    · subst hq
      have hanswers : (s.call q p c handle op).answers i q = (s.issued i q).length :=
        h.answers_eq (hnone i)
      rw [hissued, hanswers, List.drop_left]
      simp only [call, Function.update_self, Phase.waits]
      by_cases hi : i = handle
      · simp [hi]
      · simp [hi, Ne.symm hi]
    · rw [hissued, if_neg (fun h => hq h.2), List.append_nil]
      simp only [call, Function.update_of_ne hq]
      exact h.waiting i q
  · intro i t hl q hq
    have hbegun := h.begun i t hl q hq
    rw [hissued, List.length_append, hbegun]
    simp only [call]
    by_cases hself : q = pid
    · subst hself
      rw [hphase, Function.update_self]
      by_cases hi : i = handle
      · simp [Phase.arriving, hi]
      · simp [Phase.arriving, hi, Ne.symm hi]
    · simp [hself]
  · intro i hi
    obtain ⟨hrounds, hempty⟩ := h.absent i hi
    refine ⟨hrounds, fun q => ?_⟩
    have hne : i ≠ handle := fun heq => absurd hlt (by subst heq; exact Nat.not_lt.mpr hi)
    rw [hissued, hempty, if_neg (fun h => hne h.1)]
    rfl
  · intro i c' hc' q op' hq
    exact h.stored i c' hc' q op' (hof q _ hq (by rintro _ ⟨⟩)).2
  · intro i q op' hq
    exact h.working i q op' (hof q _ hq (by rintro _ ⟨⟩)).2
  · intro i t hl q op' hq
    obtain ⟨hself, hq⟩ := hof q _ hq (by rintro _ ⟨⟩)
    obtain ⟨k, hlength, hdisagree⟩ := h.lost i t hl q op' hq
    refine ⟨k, ?_, hdisagree.mono fun q => ?_⟩
    · rw [hissued, if_neg (fun h => hself h.2), List.append_nil]
      exact hlength
    · rw [hissued]
      exact List.prefix_append _ _

/-! ## The steps of the server -/

/-- The requests of an operation are those that the members have made last. -/
theorem issued_of_begun (hinv : Inv cfg s) (h : s.CallsInv)
    (hsent : s.phase req.source = .sent ⟨req.communicator, req.operation⟩)
    (hlive : s.base.server[req.communicator]? = some (some c))
    (hfree : c.messages[req.rank]? = some none)
    (hmember : c.tables.members[req.rank]? = some req.source)
    (hfull : c.participants + 1 = c.size) :
    ∀ m ∈ (c.store req).requests,
      (s.phase m.source = .sent ⟨req.communicator, m.operation⟩ ∨
        s.phase m.source = .stored ⟨req.communicator, m.operation⟩) ∧
      (s.issued req.communicator m.source).length = s.rounds req.communicator + 1 ∧
      (s.issued req.communicator m.source)[s.rounds req.communicator]? = some m.operation := by
  intro m hm
  have hslots := hinv.slots _ c hlive
  obtain ⟨hround, hrequests⟩ := hslots.isRound (hinv.base.kept _ c hlive) hfree hfull hmember
  have hphase : s.phase m.source = .sent ⟨req.communicator, m.operation⟩ ∨
      s.phase m.source = .stored ⟨req.communicator, m.operation⟩ := by
    rcases hrequests m hm with rfl | ⟨r, hr⟩
    · exact Or.inl hsent
    · exact Or.inr (hslots.slot r m hr).2.2.1
  have harriving : (s.phase m.source).arriving req.communicator = 1 ∧
      (s.phase m.source).waits req.communicator = [m.operation] := by
    rcases hphase with h | h <;> rw [h] <;> simp [Phase.arriving, Phase.waits]
  have hmember' : m.source ∈ c.tables.members := hround.map_source ▸ List.mem_map_of_mem hm
  have hbegun := h.begun _ _ ⟨c, hlive, rfl⟩ _ hmember'
  rw [harriving.1] at hbegun
  obtain ⟨hlength, hget⟩ := h.issued_eq harriving.2
  have hanswers : s.answers req.communicator m.source = s.rounds req.communicator := by omega
  exact ⟨hphase, hbegun, hanswers ▸ hget⟩

/-- The phase of the process whose request is delivered, if nobody else moves. -/
theorem phase_cases {phase : Pid → Phase} {q : Pid} {ph ph' : Phase}
    (h : Function.update phase pid ph q = ph') : ph' = ph ∨ phase q = ph' := by
  by_cases hself : q = pid
  · subst hself
    rw [Function.update_self] at h
    exact Or.inl h.symm
  · exact Or.inr (by rwa [Function.update_of_ne hself] at h)

theorem callsInv_dropped (hinv : Inv cfg s) (h : s.CallsInv)
    (hmonitor : s.base.work req.communicator = [])
    (hsent : s.phase req.source = .sent ⟨req.communicator, req.operation⟩)
    (hreserved : ReservedHandle req.communicator)
    (hunknown : s.base.server[req.communicator]? = some none) :
    (s.deliver cfg order req []).CallsInv := by
  have hadmit : Server.admitRequest cfg order s.base.server req = (s.base.server, []) := by
    rw [Server.admitRequest, hunknown]
  have hserver : (s.deliver cfg order req []).base.server = s.base.server := by
    simp only [deliver, Concurrent.deliver, hadmit]
  have hwork : (s.deliver cfg order req []).base.work = s.base.work := by
    simp only [deliver, Concurrent.deliver, hadmit]
    rw [← hmonitor, Function.update_eq_self]
  have hdelivery := @delivery_dropped cfg order _ _ _ hsent hunknown
  have hphase : (s.deliver cfg order req []).phase =
      Function.update s.phase req.source (.lost ⟨req.communicator, req.operation⟩) := by
    simp only [deliver, hdelivery]
  have hrounds : (s.deliver cfg order req []).rounds = s.rounds := by
    simp only [deliver, hdelivery, Nat.add_zero, Function.update_eq_self]
  refine h.congr rfl rfl hrounds ?_ ?_ ?_ (by rw [hserver]) ?_ ?_ ?_
    (fun n t => not_reserved hinv) ?_
  · intro q i
    rw [hphase]
    by_cases hself : q = req.source
    · subst hself
      rw [Function.update_self, hsent]
      rfl
    · rw [Function.update_of_ne hself]
  · intro q i
    rw [hphase]
    by_cases hi : i = req.communicator
    · exact Or.inl (hi ▸ hreserved)
    · right
      by_cases hself : q = req.source
      · subst hself
        rw [Function.update_self, hsent]
        simp [Phase.arriving, Ne.symm hi]
      · rw [Function.update_of_ne hself]
  · intro i t hl
    rwa [Live, hserver] at hl
  · intro i c hc q op hq
    rw [hserver] at hc
    rw [hphase] at hq
    exact h.stored i c hc q op ((phase_cases hq).resolve_left (by rintro ⟨⟩))
  · intro i q op hq
    rw [hwork]
    rw [hphase] at hq
    exact h.working i q op ((phase_cases hq).resolve_left (by rintro ⟨⟩))
  · intro i q op hq
    rw [hphase] at hq
    rcases phase_cases hq with heq | hq
    · cases heq
      exact Or.inr hreserved
    · exact Or.inl hq
  · intro req' hreq'
    simp only [deliver, hdelivery, List.mem_append, List.mem_singleton] at hreq'
    rcases hreq' with hreq' | rfl
    · exact h.dropped req' hreq'
    · exact hreserved

theorem callsInv_stored (hinv : Inv cfg s) (h : s.CallsInv)
    (hmonitor : s.base.work req.communicator = [])
    (hsent : s.phase req.source = .sent ⟨req.communicator, req.operation⟩)
    (hlive : s.base.server[req.communicator]? = some (some c))
    (hfree : c.messages[req.rank]? = some none) (hroom : c.participants + 1 ≠ c.size) :
    (s.deliver cfg order req []).CallsInv := by
  have hnumber := hinv.base.numbered _ _ hlive
  have hlt := (List.getElem?_eq_some_iff.mp hlive).1
  have hadmit : Server.admitRequest cfg order s.base.server req =
      (s.base.server.set req.communicator (some (c.store req)), []) := by
    have hstored : ¬ (c.store req).participants = c.size := hroom
    simp only [Server.admitRequest, hlive, Server.Communicator.admitRequest, hfree,
      if_neg hstored, hnumber]
  have hserver : (s.deliver cfg order req []).base.server =
      s.base.server.set req.communicator (some (c.store req)) := by
    simp only [deliver, Concurrent.deliver, hadmit]
  have hwork : (s.deliver cfg order req []).base.work = s.base.work := by
    simp only [deliver, Concurrent.deliver, hadmit]
    rw [← hmonitor, Function.update_eq_self]
  have hdelivery := @delivery_stored cfg order _ _ _ _ hsent hlive hfree hroom
  have hphase : (s.deliver cfg order req []).phase =
      Function.update s.phase req.source (.stored ⟨req.communicator, req.operation⟩) := by
    simp only [deliver, hdelivery]
  have hrounds : (s.deliver cfg order req []).rounds = s.rounds := by
    simp only [deliver, hdelivery, Nat.add_zero, Function.update_eq_self]
  have hsame : ∀ q i, ((s.deliver cfg order req []).phase q).waits i = (s.phase q).waits i ∧
      ((s.deliver cfg order req []).phase q).arriving i = (s.phase q).arriving i := by
    intro q i
    rw [hphase]
    by_cases hself : q = req.source
    · subst hself
      rw [Function.update_self, hsent]
      exact ⟨rfl, rfl⟩
    · rw [Function.update_of_ne hself]
      exact ⟨rfl, rfl⟩
  refine h.congr rfl rfl hrounds (fun q i => (hsame q i).1) (fun q i => Or.inr (hsame q i).2) ?_
    (by rw [hserver, List.length_set]) ?_ ?_ ?_ (fun n t => not_reserved hinv) ?_
  · intro i t hl
    rw [Live, hserver] at hl
    exact (@live_set s _ c (c.store req) hlive rfl i t).mp hl
  · intro i c' hc' q op hq
    rw [hserver] at hc'
    rw [hphase] at hq
    have hslot : req.rank < c.messages.length := (List.getElem?_eq_some_iff.mp hfree).1
    by_cases hi : i = req.communicator
    · subst hi
      rw [List.getElem?_set_self hlt] at hc'
      cases hc'
      by_cases hself : q = req.source
      · exact ⟨req.rank, req, by simp [Server.Communicator.store, hslot], hself.symm⟩
      · rw [Function.update_of_ne hself] at hq
        obtain ⟨r, m, hr, hm⟩ := h.stored _ c hlive q op hq
        refine ⟨r, m, ?_, hm⟩
        have hne : req.rank ≠ r := by
          rintro rfl
          rw [hfree] at hr
          cases hr
        rw [Server.Communicator.store, List.getElem?_set_ne hne, hr]
    · rw [List.getElem?_set_ne (Ne.symm hi)] at hc'
      refine h.stored i c' hc' q op ((phase_cases hq).resolve_left ?_)
      intro heq
      cases heq
      exact hi rfl
  · intro i q op hq
    rw [hwork]
    rw [hphase] at hq
    exact h.working i q op ((phase_cases hq).resolve_left (by rintro ⟨⟩))
  · intro i q op hq
    rw [hphase] at hq
    exact Or.inl ((phase_cases hq).resolve_left (by rintro ⟨⟩))
  · simpa only [deliver, hdelivery, List.append_nil] using h.dropped

theorem callsInv_begun (hinv : Inv cfg s) (h : s.CallsInv)
    (hmonitor : s.base.work req.communicator = [])
    (hsent : s.phase req.source = .sent ⟨req.communicator, req.operation⟩)
    (hlive : s.base.server[req.communicator]? = some (some c))
    (hfree : c.messages[req.rank]? = some none)
    (hmember : c.tables.members[req.rank]? = some req.source)
    (hlegal : req.operation.Legal c.tables.members) (hfull : c.participants + 1 = c.size) :
    (s.deliver cfg order req []).CallsInv := by
  have hnumber := hinv.base.numbered _ _ hlive
  have hlt := (List.getElem?_eq_some_iff.mp hlive).1
  have hslots := hinv.slots _ c hlive
  obtain ⟨hround, hrequests⟩ := hslots.isRound (hinv.base.kept _ c hlive) hfree hfull hmember
  have hissued := issued_of_begun hinv h hsent hlive hfree hmember hfull
  obtain ⟨hmove, _⟩ := @moves_begun cfg order s c req hinv hsent hlive hfree hmember hfull
  have hlegals : ∀ m ∈ (c.store req).requests, m.operation.Legal (c.store req).tables.members := by
    intro m hm
    rcases hrequests m hm with rfl | ⟨r, hr⟩
    · exact hlegal
    · exact (hslots.slot r m hr).2.2.2
  have hadmit : Server.admitRequest cfg order s.base.server req =
      (s.base.server.set req.communicator (some (c.store req).reset),
        (c.store req).jobs cfg order (c.store req).requests) := by
    have hstored : (c.store req).participants = c.size := hfull
    simp only [Server.admitRequest, hlive, Server.Communicator.admitRequest, hfree,
      if_pos hstored, hnumber]
  have hserver : (s.deliver cfg order req []).base.server =
      s.base.server.set req.communicator (some (c.store req).reset) := by
    simp only [deliver, Concurrent.deliver, hadmit]
  have hwork : (s.deliver cfg order req []).base.work = Function.update s.base.work
      req.communicator ((c.store req).jobs cfg order (c.store req).requests) := by
    simp only [deliver, Concurrent.deliver, hadmit]
  have hdelivery := @delivery_begun cfg order s c req hlive hfree hfull
  have hlive' : ∀ i t, (s.deliver cfg order req []).Live i t → s.Live i t := by
    intro i t hl
    rw [Live, hserver] at hl
    exact (@live_set s _ c (c.store req).reset hlive rfl i t).mp hl
  -- the senders of the requests have moved
  have hmoved : ∀ m ∈ (c.store req).requests, (s.deliver cfg order req []).phase m.source =
      (if m.source ∈ ((c.store req).jobs cfg order (c.store req).requests).flatMap
        Server.Job.audience then Phase.working else Phase.lost) ⟨req.communicator, m.operation⟩ := by
    intro m hm
    simp only [deliver, hdelivery, if_pos (List.mem_map_of_mem hm)]
    exact hmove m hm _
  have hother : ∀ q, (∀ m ∈ (c.store req).requests, m.source ≠ q) →
      (s.deliver cfg order req []).phase q = s.phase q := by
    intro q hq
    simp only [deliver, hdelivery]
    refine if_neg fun hmem => ?_
    obtain ⟨m, hm, heq⟩ := List.mem_map.mp hmem
    exact hq m hm heq
  have hcases : ∀ q, (∃ m ∈ (c.store req).requests, m.source = q) ∨
      ∀ m ∈ (c.store req).requests, m.source ≠ q := by
    intro q
    by_cases hq : ∃ m ∈ (c.store req).requests, m.source = q
    · exact Or.inl hq
    · exact Or.inr fun m hm heq => hq ⟨m, hm, heq⟩
  have hrounds : ∀ i, (s.deliver cfg order req []).rounds i =
      s.rounds i + if i = req.communicator then 1 else 0 := by
    intro i
    simp only [deliver, hdelivery]
    by_cases hi : i = req.communicator
    · subst hi
      simp
    · simp [hi]
  have hdropped : (s.deliver cfg order req []).dropped = s.dropped := by
    simp only [deliver, hdelivery, List.append_nil]
  refine ⟨h.answers_le, ?_, ?_, ?_, ?_, ?_, ?_, hdropped ▸ h.dropped⟩
  · intro i q
    refine (h.waiting i q).trans ?_
    rcases hcases q with ⟨m, hm, rfl⟩ | hq
    · rw [hmoved m hm]
      rcases (hissued m hm).1 with hphase | hphase <;> rw [hphase] <;> split <;> rfl
    · rw [hother q hq]
  · intro i t hl q hq
    have hl' := hlive' i t hl
    refine (h.begun i t hl' q hq).trans ?_
    rw [hrounds]
    by_cases hi : i = req.communicator
    · subst hi
      obtain rfl := live_unique hl' ⟨c, hlive, rfl⟩
      have hmem : q ∈ (c.store req).requests.map (·.source) := hround.map_source ▸ hq
      obtain ⟨m, hm, rfl⟩ := List.mem_map.mp hmem
      rw [hmoved m hm, if_pos rfl]
      rcases (hissued m hm).1 with hphase | hphase <;> rw [hphase] <;> split <;>
        simp [Phase.arriving]
    · rw [if_neg hi, Nat.add_zero]
      rcases hcases q with ⟨m, hm, rfl⟩ | hq
      · rw [hmoved m hm]
        rcases (hissued m hm).1 with hphase | hphase <;> rw [hphase] <;> split <;>
          simp [Phase.arriving, Ne.symm hi]
      · rw [hother q hq]
  · intro i hi
    rw [hserver, List.length_set] at hi
    obtain ⟨hzero, hempty⟩ := h.absent i hi
    have hne : i ≠ req.communicator := by
      rintro rfl
      exact absurd hlt (Nat.not_lt.mpr hi)
    rw [hrounds, if_neg hne]
    exact ⟨hzero, hempty⟩
  · intro i c' hc' q op hq
    rcases hcases q with ⟨m, hm, rfl⟩ | hq'
    · rw [hmoved m hm] at hq
      split at hq <;> cases hq
    · rw [hother q hq'] at hq
      rw [hserver] at hc'
      by_cases hi : i = req.communicator
      · subst hi
        obtain ⟨r, m, hr, rfl⟩ := h.stored _ c hlive q op hq
        have hne : req.rank ≠ r := by
          rintro rfl
          rw [hfree] at hr
          cases hr
        have hslot : (c.store req).messages[r]? = some (some m) := by
          rw [Server.Communicator.store, List.getElem?_set_ne hne, hr]
        exact absurd rfl (hq' m (List.mem_filterMap.mpr ⟨_, List.mem_of_getElem? hslot, rfl⟩))
      · rw [List.getElem?_set_ne (Ne.symm hi)] at hc'
        exact h.stored i c' hc' q op hq
  · intro i q op hq
    rw [hwork]
    rcases hcases q with ⟨m, hm, rfl⟩ | hq'
    · rw [hmoved m hm] at hq
      split at hq
      · rename_i haudience
        cases hq
        rwa [Function.update_self]
      · cases hq
    · rw [hother q hq'] at hq
      have hold := h.working i q op hq
      by_cases hi : i = req.communicator
      · rw [hi, hmonitor] at hold
        cases hold
      · rwa [Function.update_of_ne hi]
  · intro i t hl q op hq
    have hl' := hlive' i t hl
    rcases hcases q with ⟨m, hm, rfl⟩ | hq'
    · rw [hmoved m hm] at hq
      split at hq
      · cases hq
      · rename_i haudience
        cases hq
        obtain rfl := live_unique hl' ⟨c, hlive, rfl⟩
        refine ⟨s.rounds req.communicator, (hissued m hm).2.1, ?_⟩
        by_contra hnone
        -- requests that agree are all answered
        have hagree : Server.Agree (c.store req).requests := by
          intro m₁ hm₁ m₂ hm₂
          have hmember₁ : ∀ m' ∈ (c.store req).requests, m'.source ∈ c.tables.members :=
            fun m' hm' => hround.map_source ▸ List.mem_map_of_mem hm'
          have hsame : m₁.operation.Same m₂.operation := by
            by_contra hne
            exact hnone ⟨m₁.source, hmember₁ m₁ hm₁, m₂.source, hmember₁ m₂ hm₂, m₁.operation,
              m₂.operation, (hissued m₁ hm₁).2.2, (hissued m₂ hm₂).2.2, hne⟩
          exact hsame.agree
        refine haudience ?_
        rw [(Server.audience_perm hround hslots.valid hslots.tables hlegals hagree).mem_iff]
        exact hround.map_source ▸ List.mem_map_of_mem hm
    · rw [hother q hq'] at hq
      exact h.lost i t hl' q op hq

theorem callsInv_deliver (hinv : Inv cfg s) (h : s.CallsInv)
    {before after : List Server.CommunicatorRequest}
    (hrequest : s.base.requests req.source = before ++ req :: after)
    (hmonitor : s.base.work req.communicator = []) :
    (s.deliver cfg order req (before ++ after)).CallsInv := by
  obtain ⟨rfl, rfl, hsent, hknown⟩ := sent_of_request hinv hrequest
  cases deliveryCase hinv hsent hknown with
  | dropped hreserved hunknown =>
      exact callsInv_dropped hinv h hmonitor hsent hreserved hunknown
  | stored c hlive hfree hmember hlegal hroom =>
      exact callsInv_stored hinv h hmonitor hsent hlive hfree hroom
  | begun c hlive hfree hmember hlegal hfull =>
      exact callsInv_begun hinv h hmonitor hsent hlive hfree hmember hlegal hfull

theorem callsInv_perform (hinv : Inv cfg s) (h : s.CallsInv) {job : Server.Job}
    {jobs : List Server.Job} (hwork : s.base.work n = job :: jobs) :
    (s.perform cfg n job jobs).CallsInv := by
  obtain ⟨t, requests, server, ms, hl, hrun, heffect, _, hrequests, hnodup⟩ :=
    working_of_audience hinv hwork
  obtain ⟨_, hreplied⟩ := @replied_perform cfg s n job jobs t requests server ms hrun heffect
    hrequests
  rw [List.flatMap_cons, List.nodup_append] at hnodup
  have haudience : (ms.map Server.Reply.destination).Nodup := by
    rw [heffect.destinations]
    exact hnodup.1
  have hserver : (s.perform cfg n job jobs).base.server = server := by
    simp only [perform, Concurrent.perform, hrun]
  have hwork' : (s.perform cfg n job jobs).base.work = Function.update s.base.work n jobs := by
    simp only [perform, Concurrent.perform, hrun]
  have hanswers : ∀ i q, (s.perform cfg n job jobs).answers i q =
      s.answers i q + if i = n then (ms.map Server.Reply.destination).count q else 0 := by
    intro i q
    simp only [perform, hrun]
    by_cases hi : i = n
    · subst hi
      simp
    · simp [hi]
  have hsame : (s.perform cfg n job jobs).issued = s.issued ∧
      (s.perform cfg n job jobs).rounds = s.rounds ∧
      (s.perform cfg n job jobs).dropped = s.dropped := by
    simp only [perform, hrun, and_self]
  -- who is answered, and who is where it was
  have hcases : ∀ q, (∃ op, s.phase q = .working ⟨n, op⟩ ∧
      (s.perform cfg n job jobs).phase q = .answered ⟨n, op⟩ ∧
        (ms.map Server.Reply.destination).count q = 1) ∨
      ((s.perform cfg n job jobs).phase q = s.phase q ∧ q ∉ ms.map Server.Reply.destination ∧
        (ms.map Server.Reply.destination).count q = 0) := by
    intro q
    by_cases hq : q ∈ ms.map Server.Reply.destination
    · have hcount := List.count_eq_one_of_mem haudience hq
      obtain ⟨m, hm, rfl⟩ := List.mem_map.mp hq
      obtain ⟨op, hworking, hanswered⟩ := hreplied.self m hm
      exact Or.inl ⟨op, hworking, hanswered, hcount⟩
    · exact Or.inr ⟨hreplied.others q hq, hq, List.count_eq_zero_of_not_mem hq⟩
  have harriving : ∀ q i, ((s.perform cfg n job jobs).phase q).arriving i =
      (s.phase q).arriving i := by
    intro q i
    rcases hcases q with ⟨op, hworking, hanswered, _⟩ | ⟨hsame, _⟩
    · rw [hworking, hanswered]
      rfl
    · rw [hsame]
  have hslots : ∀ (i : Nat) c, server[i]? = some (some c) →
      s.base.server[i]? = some (some c) ∨ i = s.base.server.length := by
    intro i c hc
    rcases heffect.server with rfl | ⟨pids, _, rfl, _⟩
    · exact Or.inl hc
    · exact (getElem?_concat_cases hc).imp_right fun h => h.1
  have hlive : ∀ i t, (s.perform cfg n job jobs).Live i t →
      s.Live i t ∨ i = s.base.server.length := by
    intro i t hl
    rw [Live, hserver] at hl
    obtain ⟨c, hc, ht⟩ := hl
    exact (hslots i c hc).imp_left fun hc => ⟨c, hc, ht⟩
  have hlength : s.base.server.length ≤ server.length := by
    rcases heffect.server with rfl | ⟨pids, _, rfl, _⟩
    · exact Nat.le_refl _
    · simp
  refine ⟨?_, ?_, ?_, ?_, ?_, ?_, ?_, hsame.2.2 ▸ h.dropped⟩
  · intro i q
    rw [hsame.1, hanswers]
    rcases hcases q with ⟨op, hworking, _, hcount⟩ | ⟨_, _, hcount⟩
    · split
      · rename_i hi
        have hwaits : (s.phase q).waits i = [op] := by simp [hworking, Phase.waits, hi]
        rw [hcount, (h.issued_eq hwaits).1]
      · exact h.answers_le i q
    · rw [hcount, ite_self]
      exact h.answers_le i q
  · intro i q
    rw [hsame.1, hanswers]
    rcases hcases q with ⟨op, hworking, hanswered, hcount⟩ | ⟨hphase, _, hcount⟩
    · have hdrop := h.waiting i q
      rw [hworking] at hdrop
      rw [hanswered]
      split
      · rename_i hi
        rw [hcount, ← List.drop_drop, hdrop]
        simp [Phase.waits, hi]
      · rename_i hi
        simpa [Phase.waits, Ne.symm hi] using hdrop
    · rw [hcount, ite_self, hphase]
      exact h.waiting i q
  · intro i t hl q hq
    rw [hsame.1, hsame.2.1, harriving]
    rcases hlive i t hl with hl | rfl
    · exact h.begun i t hl q hq
    · -- nobody has asked for anything on a new communicator
      obtain ⟨hzero, hempty⟩ := h.absent _ (Nat.le_refl _)
      have hle := (s.phase q).arriving_le s.base.server.length
      rw [h.waits_absent (Nat.le_refl _), List.length_nil] at hle
      rw [hzero, hempty, Nat.le_zero.mp hle]
      rfl
  · intro i hi
    rw [hserver] at hi
    rw [hsame.1, hsame.2.1]
    exact h.absent i (Nat.le_trans hlength hi)
  · intro i c hc q op hq
    rw [hserver] at hc
    rcases hcases q with ⟨op', _, hanswered, _⟩ | ⟨hphase, _⟩
    · rw [hanswered] at hq
      cases hq
    · rw [hphase] at hq
      rcases hslots i c hc with hc | rfl
      · exact h.stored i c hc q op hq
      · have hwaits := h.waits_absent (Nat.le_refl _) q
        rw [hq] at hwaits
        simp [Phase.waits] at hwaits
  · intro i q op hq
    rw [hwork']
    rcases hcases q with ⟨op', _, hanswered, _⟩ | ⟨hphase, hnot, _⟩
    · rw [hanswered] at hq
      cases hq
    · rw [hphase] at hq
      have hold := h.working i q op hq
      by_cases hi : i = n
      · subst hi
        rw [Function.update_self]
        rw [hwork, List.flatMap_cons, List.mem_append, ← heffect.destinations] at hold
        exact hold.resolve_left hnot
      · rwa [Function.update_of_ne hi]
  · intro i t hl q op hq
    rw [hsame.1]
    rcases hcases q with ⟨op', _, hanswered, _⟩ | ⟨hphase, _⟩
    · rw [hanswered] at hq
      cases hq
    · rw [hphase] at hq
      rcases hlive i t hl with hl | rfl
      · exact h.lost i t hl q op hq
      · have hwaits := h.waits_absent (Nat.le_refl _) q
        rw [hq] at hwaits
        simp [Phase.waits] at hwaits

/-! ## The records of a run -/

theorem callsInv_start : (start cfg
    [some (Server.Communicator.fresh 0 (Server.tablesSpec (Server.worldMembers cfg))), none,
      none]).CallsInv where
  answers_le := fun _ _ => Nat.le_refl 0
  waiting := fun _ _ => rfl
  begun := fun _ _ _ _ _ => rfl
  absent := fun _ _ => ⟨rfl, fun _ => rfl⟩
  stored := by
    intro n c _ q op hq
    cases hq
  working := by
    intro n q op hq
    cases hq
  lost := by
    intro n t _ q op hq
    cases hq
  dropped := by
    intro req hreq
    cases hreq

/-- **A step keeps the records right.** -/
theorem callsInv_step (hinv : Inv cfg s) (h : s.CallsInv) (hstep : Step cfg order s s') :
    s'.CallsInv := by
  cases hstep with
  | call hphase hp hc hlegal => exact callsInv_call hinv h hphase hp hc
  | deliver hrequest hmonitor => exact callsInv_deliver hinv h hrequest hmonitor
  | perform hwork => exact callsInv_perform hinv h hwork
  | accept hphase hp hc hreply hcomm =>
      exact callsInv_phase hinv h (Or.inr ⟨_, hphase⟩) (Or.inl rfl) rfl rfl rfl rfl rfl rfl rfl
  | halt hphase => exact callsInv_phase hinv h hphase (Or.inr rfl) rfl rfl rfl rfl rfl rfl rfl
  | send hphase hp hc hm =>
      exact ⟨h.answers_le, h.waiting, h.begun, h.absent, h.stored, h.working, h.lost, h.dropped⟩
  | forward hm =>
      exact ⟨h.answers_le, h.waiting, h.begun, h.absent, h.stored, h.working, h.lost, h.dropped⟩
  | take hphase hm =>
      exact ⟨h.answers_le, h.waiting, h.begun, h.absent, h.stored, h.working, h.lost, h.dropped⟩

/-- **The records are right in every reachable state.** -/
theorem callsInv_of_reachable (h : Reachable cfg order s) : s.CallsInv := by
  obtain ⟨server, hserver, hrun⟩ := h
  rw [Server.initCommWorld_eq] at hserver
  cases hserver
  induction hrun with
  | refl => exact callsInv_start
  | tail hrun hstep ih =>
      exact callsInv_step (inv_of_reachable ⟨_, Server.initCommWorld_eq cfg, hrun⟩) ih hstep

end Application

end EsalsaMpi
