import EsalsaMpi.Concurrent.Application

/-!
# The invariant of a run

`Application.Inv` says where the request and the reply of every process are,
phase by phase, and that a running member of a communicator of the server has it
in its table.  The one exception is a process with a reply on its way that
announces the communicator: it is still in its call.
-/

namespace EsalsaMpi

namespace Application

variable {cfg : Server.Config} {order : Server.HashOrder} {s s' : Application} {pid : Pid}
  {n : Nat}

/-- The server has a communicator `n` with the tables `t`. -/
def Live (s : Application) (n : Nat) (t : Tables) : Prop :=
  ∃ c, s.base.server[n]? = some (some c) ∧ c.tables = t

/-- A handle that the server knows nothing about: `EMPI_COMM_SELF` and
`EMPI_COMM_NULL`. -/
def ReservedHandle (n : Nat) : Prop := n = 1 ∨ n = 2

/-- A communicator of the server, with requests of processes that wait. -/
structure SlotsInv (cfg : Server.Config) (phase : Pid → Phase) (n : Nat)
    (c : Server.Communicator) : Prop where
  valid : cfg.Valid c.tables.members
  tables : c.tables = Server.tablesSpec c.tables.members
  participants : c.participants = c.messages.countP Option.isSome
  room : c.tables.members = [] ∨ c.participants < c.size
  slot : ∀ (r : Nat) m, c.messages[r]? = some (some m) →
    m.communicator = n ∧ c.tables.members[r]? = some m.source ∧
      phase m.source = .stored ⟨n, m.operation⟩ ∧ m.operation.Legal c.tables.members

/-- A process and its table. -/
structure ProcessInv (cfg : Server.Config) (live : Nat → Tables → Prop) (pid : Pid)
    (p : Process) : Prop where
  pid_eq : p.pid = pid
  application : cfg.IsApplication pid
  self : (p.comms 1).isSome
  known : ∀ h c, p.comms h = some c → c.handle = h ∧
    (ReservedHandle h ∨ (live h c.tables ∧ c.tables.members[c.globalRank]? = some pid))
  reserved : ∀ h c, p.comms h = some c → ReservedHandle h → ∀ q ∈ c.tables.members, q = pid

/-- The requests of a process on their way, by its phase. -/
def RequestsInv (live : Nat → Tables → Prop) (pid : Pid)
    (requests : List Server.CommunicatorRequest) : Phase → Prop
  | .sent call => ∃ rank, requests = [⟨pid, call.handle, rank, call.operation⟩] ∧
      (ReservedHandle call.handle ∨ ∃ t, live call.handle t ∧ t.members[rank]? = some pid ∧
        call.operation.Legal t.members)
  | _ => requests = []

/-- The replies for a process on their way, by its phase. -/
def RepliesInv (live : Nat → Tables → Prop) (pid : Pid) (replies : List Server.ReplyBody) :
    Phase → Prop
  | .answered call => ∃ body t, replies = [body] ∧ live call.handle t ∧
      Server.Suits live t pid call.operation body
  | .ended => True
  | _ => replies = []

/-- The work on communicator `n`: it answers processes that wait for it, each
once. -/
structure WorkInv (cfg : Server.Config) (live : Nat → Tables → Prop) (phase : Pid → Phase)
    (n : Nat) (work : List Server.Job) : Prop where
  nodup : (work.flatMap Server.Job.audience).Nodup
  serves : work = [] ∨ ∃ t requests, live n t ∧
    (∀ job ∈ work, job.Serves cfg t requests) ∧
    (∀ req ∈ requests, cfg.IsApplication req.source ∧
      (req.source ∈ work.flatMap Server.Job.audience →
        phase req.source = .working ⟨n, req.operation⟩))

/-- **The invariant of a run.** -/
structure Inv (cfg : Server.Config) (s : Application) : Prop where
  base : s.base.Inv
  free : s.base.server[1]? = some none ∧ s.base.server[2]? = some none
  slots : ∀ (n : Nat) c, s.base.server[n]? = some (some c) → SlotsInv cfg s.phase n c
  process : ∀ pid p, s.base.processes pid = some p → ProcessInv cfg s.Live pid p
  requests : ∀ pid, RequestsInv s.Live pid (s.base.requests pid) (s.phase pid)
  replies : ∀ pid, RepliesInv s.Live pid (s.base.replies pid) (s.phase pid)
  work : ∀ n, WorkInv cfg s.Live s.phase n (s.base.work n)
  table : ∀ n t, s.Live n t → ∀ pid ∈ t.members, ∀ p, s.base.processes pid = some p →
    s.phase pid ≠ .ended → s.base.server.length ≤ maxCommunicators →
      (p.comms n).isSome ∨ ∃ call body, s.phase pid = .answered call ∧
        body ∈ s.base.replies pid ∧ body.handle = some n

/-! ## What depends on the communicators of the server only through `Live` -/

theorem ProcessInv.mono {live live' : Nat → Tables → Prop} {p : Process}
    (h : ProcessInv cfg live pid p) (hlive : ∀ n t, live n t → live' n t) :
    ProcessInv cfg live' pid p where
  pid_eq := h.pid_eq
  application := h.application
  self := h.self
  known := by
    intro i c hc
    obtain ⟨hhandle, hknown⟩ := h.known i c hc
    exact ⟨hhandle, hknown.imp_right fun ⟨hl, hrank⟩ => ⟨hlive _ _ hl, hrank⟩⟩
  reserved := h.reserved

theorem RequestsInv.mono {live live' : Nat → Tables → Prop}
    {requests : List Server.CommunicatorRequest} {ph : Phase}
    (h : RequestsInv live pid requests ph) (hlive : ∀ n t, live n t → live' n t) :
    RequestsInv live' pid requests ph := by
  cases ph with
  | sent call =>
      obtain ⟨rank, hrequests, hknown⟩ := h
      exact ⟨rank, hrequests, hknown.imp_right fun ⟨t, hl, hrank⟩ => ⟨t, hlive _ _ hl, hrank⟩⟩
  | running => exact h
  | stored call => exact h
  | working call => exact h
  | answered call => exact h
  | lost call => exact h
  | ended => exact h

theorem RepliesInv.mono {live live' : Nat → Tables → Prop} {replies : List Server.ReplyBody}
    {ph : Phase} (h : RepliesInv live pid replies ph) (hlive : ∀ n t, live n t → live' n t) :
    RepliesInv live' pid replies ph := by
  cases ph with
  | answered call =>
      obtain ⟨body, t, hreplies, hl, hsuits⟩ := h
      exact ⟨body, t, hreplies, hlive _ _ hl, hsuits.mono hlive⟩
  | running => exact h
  | sent call => exact h
  | stored call => exact h
  | working call => exact h
  | lost call => exact h
  | ended => exact h

theorem WorkInv.mono {live live' : Nat → Tables → Prop} {phase : Pid → Phase}
    {work : List Server.Job} (h : WorkInv cfg live phase n work)
    (hlive : ∀ n t, live n t → live' n t) : WorkInv cfg live' phase n work where
  nodup := h.nodup
  serves := h.serves.imp_right fun ⟨t, requests, hl, hserves⟩ =>
    ⟨t, requests, hlive _ _ hl, hserves⟩

/-- The tables of a communicator stay what they are. -/
theorem live_unique {t t' : Tables} (h : s.Live n t) (h' : s.Live n t') : t = t' := by
  obtain ⟨c, hc, rfl⟩ := h
  obtain ⟨c', hc', rfl⟩ := h'
  rw [hc] at hc'
  cases hc'
  rfl

/-! ## What depends on the phases -/

theorem SlotsInv.congr {phase phase' : Pid → Phase} {c : Server.Communicator}
    (h : SlotsInv cfg phase n c)
    (hphase : ∀ q op, phase q = .stored ⟨n, op⟩ → phase' q = phase q) :
    SlotsInv cfg phase' n c where
  valid := h.valid
  tables := h.tables
  participants := h.participants
  room := h.room
  slot := by
    intro r m hm
    obtain ⟨hcomm, hmember, hstored, hlegal⟩ := h.slot r m hm
    exact ⟨hcomm, hmember, (hphase _ _ hstored).trans hstored, hlegal⟩

theorem WorkInv.congr {live : Nat → Tables → Prop} {phase phase' : Pid → Phase}
    {work : List Server.Job} (h : WorkInv cfg live phase n work)
    (hphase : ∀ q op, phase q = .working ⟨n, op⟩ → phase' q = phase q) :
    WorkInv cfg live phase' n work where
  nodup := h.nodup
  serves := by
    refine h.serves.imp_right ?_
    intro ⟨t, requests, hl, hserves, hrequests⟩
    refine ⟨t, requests, hl, hserves, fun req hreq => ⟨(hrequests req hreq).1, fun hmem => ?_⟩⟩
    have hworking := (hrequests req hreq).2 hmem
    exact (hphase _ _ hworking).trans hworking

/-- A legal request lists distinct processes. -/
theorem distinct_of_legal {members : List Pid} {m : Server.CommunicatorRequest}
    (h : m.operation.Legal members) : m.Distinct := by
  intro pids hpids
  unfold Server.CommunicatorRequest.toGroup at hpids
  split at hpids
  · rename_i group hop
    cases hpids
    rw [hop] at h
    exact h.1
  · cases hpids

/-! ## The steps of a process -/

/-- A process that is not waiting at the server gets another phase. -/
theorem inv_phase (hinv : Inv cfg s) {ph : Phase}
    (hidle : s.phase pid = .running ∨ ∃ call, s.phase pid = .answered call)
    (hrequests : RequestsInv s.Live pid (s.base.requests pid) ph)
    (hreplies : RepliesInv s.Live pid (s.base.replies pid) ph)
    (htable : ph ≠ .ended → s.phase pid = .running) :
    Inv cfg { s with phase := Function.update s.phase pid ph } where
  base := hinv.base
  free := hinv.free
  slots := by
    intro n c hc
    refine (hinv.slots n c hc).congr fun q op hq => Function.update_of_ne ?_ _ _
    intro heq
    subst heq
    rcases hidle with h | ⟨call, h⟩ <;> rw [h] at hq <;> cases hq
  process := hinv.process
  requests := (Function.forall_update_iff s.phase fun q ph =>
    RequestsInv s.Live q (s.base.requests q) ph).mpr ⟨hrequests, fun q _ => hinv.requests q⟩
  replies := (Function.forall_update_iff s.phase fun q ph =>
    RepliesInv s.Live q (s.base.replies q) ph).mpr ⟨hreplies, fun q _ => hinv.replies q⟩
  work := by
    intro n
    refine (hinv.work n).congr fun q op hq => Function.update_of_ne ?_ _ _
    intro heq
    subst heq
    rcases hidle with h | ⟨call, h⟩ <;> rw [h] at hq <;> cases hq
  table := by
    intro n t hl q hq p hp hne hmax
    by_cases hself : q = pid
    · subst hself
      simp only [Function.update_self] at hne
      have hrunning := htable hne
      rcases hinv.table n t hl q hq p hp (by rw [hrunning]; nofun) hmax with
        hknown | ⟨call, body, hanswered, _⟩
      · exact Or.inl hknown
      · rw [hrunning] at hanswered
        cases hanswered
    · simp only [Function.update_of_ne hself] at hne ⊢
      exact hinv.table n t hl q hq p hp hne hmax

theorem inv_halt (hinv : Inv cfg s)
    (hphase : s.phase pid = .running ∨ ∃ call, s.phase pid = .answered call) :
    Inv cfg { s with phase := Function.update s.phase pid .ended } := by
  refine inv_phase hinv hphase ?_ trivial fun h => absurd rfl h
  have hrequests := hinv.requests pid
  rcases hphase with h | ⟨call, h⟩ <;> rw [h] at hrequests <;> exact hrequests

/-- A call that a process makes is one that the server can answer, or one on a
handle that the server does not know. -/
theorem inv_call (hinv : Inv cfg s) {p : Process} {c : Communicator} {handle : Nat}
    {op : Server.Operation} (hphase : s.phase pid = .running)
    (hp : s.base.processes pid = some p) (hc : p.comms handle = some c)
    (hlegal : op.Legal c.tables.members) : Inv cfg (s.call pid p c handle op) := by
  have hprocess := hinv.process pid p hp
  obtain ⟨hhandle, hknown⟩ := hprocess.known handle c hc
  have hrequest : p.request c op = ⟨pid, handle, c.globalRank, op⟩ := by
    rw [Process.request, hprocess.pid_eq, hhandle]
  have hrequests := hinv.requests pid
  rw [hphase] at hrequests
  have hsource : (p.request c op).source = pid := by rw [hrequest]
  refine ⟨Concurrent.inv_request hinv.base (distinct_of_legal hlegal), hinv.free, ?_,
    hinv.process, ?_, ?_, ?_, ?_⟩
  · intro n c' hc'
    refine (hinv.slots n c' hc').congr fun q op' hq => Function.update_of_ne ?_ _ _
    intro heq
    subst heq
    rw [hphase] at hq
    cases hq
  · intro q
    by_cases hq : q = pid
    · subst hq
      have hnew : (s.call q p c handle op).base.requests q = [⟨q, handle, c.globalRank, op⟩] := by
        simp only [call, Concurrent.request, hrequest, Queues.push_self]
        rw [show s.base.requests q = [] from hrequests, List.nil_append]
      rw [hnew]
      simp only [call, Function.update_self]
      exact ⟨c.globalRank, rfl, hknown.imp_right fun ⟨hl, hrank⟩ => ⟨c.tables, hl, hrank, hlegal⟩⟩
    · have hold : (s.call pid p c handle op).base.requests q = s.base.requests q := by
        simp only [call, Concurrent.request, hsource, Queues.push_apply, if_neg hq, List.append_nil]
      rw [hold]
      simp only [call, Function.update_of_ne hq]
      exact hinv.requests q
  · have hreplies := hinv.replies pid
    rw [hphase] at hreplies
    exact (Function.forall_update_iff s.phase fun q ph =>
      RepliesInv s.Live q (s.base.replies q) ph).mpr ⟨hreplies, fun q _ => hinv.replies q⟩
  · intro n
    refine (hinv.work n).congr fun q op' hq => Function.update_of_ne ?_ _ _
    intro heq
    subst heq
    rw [hphase] at hq
    cases hq
  · intro n t hl q hq p' hp' hne hmax
    by_cases hself : q = pid
    · subst hself
      rcases hinv.table n t hl q hq p' hp' (by rw [hphase]; nofun) hmax with
        hknown' | ⟨call, body, hanswered, _⟩
      · exact Or.inl hknown'
      · rw [hphase] at hanswered
        cases hanswered
    · simp only [call, Function.update_of_ne hself] at hne ⊢
      exact hinv.table n t hl q hq p' hp' hne hmax

/-- What a process that has its reply enters in its table is a communicator of
the server, with its own place in it. -/
theorem conclude_registers {live : Nat → Tables → Prop} {p p' : Process} {c : Communicator}
    {op : Server.Operation} {body : Server.ReplyBody} {comm : Option (List Pid)}
    (hsuits : Server.Suits live c.tables pid op body)
    (hrank : c.tables.members[c.globalRank]? = some pid)
    (hconclude : p.conclude c op body comm = some p') :
    p' = p ∨ ∃ n c', body.handle = some n ∧ p.Registers p' n c' ∧ c'.handle = n ∧
      live n c'.tables ∧ c'.tables.members[c'.globalRank]? = some pid := by
  have hhandle : ∀ {newComm : Int}, body.newComm = some newComm → 0 ≤ newComm →
      body.handle = some newComm.toNat := by
    intro newComm hnew hnonneg
    rw [Server.ReplyBody.handle, hnew]
    exact if_pos hnonneg
  unfold Process.conclude at hconclude
  unfold Server.Suits at hsuits
  cases op with
  | split color key =>
      cases body with
      | split info color' key' =>
          cases comm with
          | none => exact Or.inl (Option.some.inj hconclude).symm
          | some comm =>
              obtain ⟨hnonneg, _, hregisters⟩ := addCommunicator_eq_some hconclude
              have hnew := hhandle rfl hnonneg
              obtain ⟨_, hl, hplace⟩ := hsuits _ hnew
              exact Or.inr ⟨_, _, hnew, hregisters, rfl, hl, hplace⟩
      | group info type => exact hsuits.elim
      | dup newComm => exact hsuits.elim
      | finalize => exact hsuits.elim
  | group pids =>
      cases body with
      | group info type =>
          simp only at hconclude
          split at hconclude
          · obtain ⟨hnonneg, _, hregisters⟩ := addCommunicator_eq_some hconclude
            have hnew := hhandle rfl hnonneg
            obtain ⟨_, hl, hplace⟩ := hsuits _ hnew
            exact Or.inr ⟨_, _, hnew, hregisters, rfl, hl, hplace⟩
          · exact Or.inl (Option.some.inj hconclude).symm
      | split info color' key' => exact hsuits.elim
      | dup newComm => exact hsuits.elim
      | finalize => exact hsuits.elim
  | dup =>
      cases body with
      | dup newComm =>
          obtain ⟨comm', rfl, hadd⟩ := Option.bind_eq_some_iff.mp hconclude
          obtain ⟨hnonneg, _, hregisters⟩ := addCommunicator_eq_some hadd
          have hnew := hhandle rfl hnonneg
          exact Or.inr ⟨_, _, hnew, hregisters, rfl, hsuits _ hnew, hrank⟩
      | split info color' key' => exact hsuits.elim
      | group info type => exact hsuits.elim
      | finalize => exact hsuits.elim
  | free => exact hsuits.elim
  | finalize => exact hsuits.elim

/-- A process enters what its reply announces. -/
theorem conclude_adds {live : Nat → Tables → Prop} {parent : Tables} {p : Process}
    {c : Communicator} {op : Server.Operation} {body : Server.ReplyBody}
    {comm : Option (List Pid)} (hsuits : Server.Suits live parent p.pid op body)
    (hreturns : p.Returns op body comm) {newComm : Int} (hnew : body.newComm = some newComm)
    (hnonneg : 0 ≤ newComm) (hroom : p.addError newComm false = none) :
    ∃ p', p.conclude c op body comm = some p' ∧ (p'.comms newComm.toNat).isSome := by
  have hhandle : body.handle = some newComm.toNat := by
    rw [Server.ReplyBody.handle, hnew]
    exact if_pos hnonneg
  have hadd : ∀ c', ∃ p', p.addCommunicator newComm false c' = some p' ∧
      (p'.comms newComm.toNat).isSome := by
    intro c'
    cases hadd : p.addCommunicator newComm false c' with
    | none =>
        rw [Process.addCommunicator_eq_none_iff, hroom] at hadd
        cases hadd
    | some p' =>
        obtain ⟨_, _, hregisters⟩ := addCommunicator_eq_some hadd
        refine ⟨p', rfl, ?_⟩
        rw [hregisters.comms, if_pos rfl]
        rfl
  unfold Process.Returns at hreturns
  unfold Server.Suits at hsuits
  cases op with
  | split color key =>
      cases body with
      | split info color' key' =>
          obtain ⟨hcolor, _⟩ := hsuits _ hhandle
          cases hnew
          cases comm with
          | none =>
              have hundefined := hreturns.mp rfl
              rw [localColorKey, if_neg (by omega)] at hundefined
              simp only [mpiUndefined, empiUndefined] at hundefined
              omega
          | some comm => exact hadd _
      | group info type => exact hsuits.elim
      | dup newComm => exact hsuits.elim
      | finalize => exact hsuits.elim
  | group pids =>
      cases body with
      | group info type =>
          obtain ⟨⟨rfl, hself⟩, _⟩ := hsuits _ hhandle
          cases hnew
          have hlocal : p.localCreateRanks pids .active ≠ none := by
            unfold Process.localCreateRanks
            rw [if_neg (by rintro ⟨⟩)]
            have hne : ¬ ((pids.filter fun q => getClusterRank q = p.clusterRank).map
                getProcessRank).length = 0 := by
              rw [List.length_map, List.length_eq_zero_iff, List.filter_eq_nil_iff]
              intro hnone
              exact hnone p.pid hself (decide_eq_true rfl)
            simp only [if_neg hne]
            rintro ⟨⟩
          obtain ⟨ranks, hranks⟩ := Option.ne_none_iff_exists'.mp hlocal
          cases comm with
          | none => exact absurd hself (hreturns.mp rfl)
          | some comm =>
              simp only [Process.conclude, hranks]
              exact hadd _
      | split info color' key' => exact hsuits.elim
      | dup newComm => exact hsuits.elim
      | finalize => exact hsuits.elim
  | dup =>
      cases body with
      | dup newComm' =>
          cases hnew
          obtain ⟨comm', rfl⟩ := Option.ne_none_iff_exists'.mp hreturns
          exact hadd _
      | split info color' key' => exact hsuits.elim
      | group info type => exact hsuits.elim
      | finalize => exact hsuits.elim
  | free => exact hsuits.elim
  | finalize => exact hsuits.elim

/-- The table of a process after its call. -/
theorem ProcessInv.conclude {live : Nat → Tables → Prop} {p : Process} {c : Communicator}
    {op : Server.Operation} {body : Server.ReplyBody} {comm : Option (List Pid)}
    (h : ProcessInv cfg live pid p) (hsuits : Server.Suits live c.tables pid op body)
    (hrank : c.tables.members[c.globalRank]? = some pid)
    (hthree : ∀ n, body.handle = some n → 3 ≤ n) :
    ProcessInv cfg live pid ((p.conclude c op body comm).getD p) := by
  cases hconclude : p.conclude c op body comm with
  | none => exact h
  | some p' =>
      rcases conclude_registers hsuits hrank hconclude with rfl | ⟨n, c', hn, hreg, hhandle, hl, hplace⟩
      · exact h
      · have hn3 := hthree n hn
        refine ⟨hreg.pid.trans h.pid_eq, h.application, ?_, ?_, ?_⟩
        · rw [Option.getD_some, hreg.comms, if_neg (by omega)]
          exact h.self
        · intro i c'' hc''
          rw [Option.getD_some, hreg.comms] at hc''
          split at hc''
          · rename_i hi
            cases hc''
            exact ⟨hhandle.trans hi.symm, Or.inr ⟨hi ▸ hl, hplace⟩⟩
          · exact h.known i c'' hc''
        · intro i c'' hc'' hreserved
          rw [Option.getD_some, hreg.comms, if_neg (by unfold ReservedHandle at hreserved; omega)]
            at hc''
          exact h.reserved i c'' hc'' hreserved

/-- A handle in the table stays there. -/
theorem isSome_conclude {p : Process} {c : Communicator} {op : Server.Operation}
    {body : Server.ReplyBody} {comm : Option (List Pid)} {h : Nat} (hsome : (p.comms h).isSome) :
    ((((p.conclude c op body comm).getD p).comms h)).isSome := by
  cases hconclude : p.conclude c op body comm with
  | none => exact hsome
  | some p' =>
      rcases conclude_cases hconclude with rfl | ⟨newComm, c', _, hadd⟩
      · exact hsome
      · obtain ⟨_, _, hreg⟩ := addCommunicator_eq_some hadd
        rw [Option.getD_some, hreg.comms]
        split
        · rfl
        · exact hsome

/-- A process has room for what is announced to it, as long as the numbers stay
below the size of its table. -/
theorem addError_eq_none (hinv : Inv cfg s) {p : Process} {body : Server.ReplyBody}
    {newComm : Int} (hp : s.base.processes pid = some p) (hbody : body ∈ s.base.replies pid)
    (hnew : body.newComm = some newComm) (hnonneg : 0 ≤ newComm)
    (hmax : s.base.server.length ≤ maxCommunicators) : p.addError newComm false = none := by
  have hhandle : newComm.toNat ∈ Concurrent.handles s.base.replies pid := by
    refine List.mem_filterMap.mpr ⟨body, hbody, ?_⟩
    rw [Server.ReplyBody.handle, hnew]
    exact if_pos hnonneg
  have hlt := (hinv.base.issued.mem_iff.mp (hinv.base.handedOut pid _ hhandle)).2
  rcases hinv.base.room hp hbody hnew with hneg | ⟨hthree, hfree⟩
  · omega
  · rw [Process.addError, if_neg (by omega), if_neg (by omega), hfree]
    rfl

theorem inv_accept (hinv : Inv cfg s) {p : Process} {c : Communicator} {call : Call}
    {body : Server.ReplyBody} {before after : List Server.ReplyBody} {comm : Option (List Pid)}
    (hphase : s.phase pid = .answered call) (hp : s.base.processes pid = some p)
    (hc : p.comms call.handle = some c) (hreply : s.base.replies pid = before ++ body :: after)
    (hcomm : p.Returns call.operation body comm) :
    Inv cfg (s.accept pid ((p.conclude c call.operation body comm).getD p) (before ++ after)) := by
  have hprocess := hinv.process pid p hp
  have hreplies := hinv.replies pid
  rw [hphase] at hreplies
  obtain ⟨body', t, hone, hl, hsuits⟩ := hreplies
  -- the reply is the only one
  obtain ⟨rfl, rfl, rfl⟩ : before = [] ∧ body = body' ∧ after = [] := by
    rw [hone] at hreply
    cases before with
    | nil =>
        cases hreply
        exact ⟨rfl, rfl, rfl⟩
    | cons first before =>
        have hlength := congrArg List.length hreply
        simp at hlength
  have hbody : body ∈ s.base.replies pid := by rw [hone]; exact List.mem_singleton_self body
  have hknown : c.tables = t ∧ c.tables.members[c.globalRank]? = some pid := by
    rcases (hprocess.known _ c hc).2 with hreserved | ⟨hl', hrank⟩
    · obtain ⟨c', hc', _⟩ := hl
      rcases hreserved with h | h <;> rw [h] at hc'
      · rw [hinv.free.1] at hc'
        cases hc'
      · rw [hinv.free.2] at hc'
        cases hc'
    · exact ⟨live_unique hl' hl, hrank⟩
  obtain ⟨rfl, hrank⟩ := hknown
  have hthree : ∀ n, body.handle = some n → 3 ≤ n := by
    intro n hn
    have hmem : n ∈ Concurrent.handles s.base.replies pid := List.mem_filterMap.mpr ⟨body, hbody, hn⟩
    exact (hinv.base.issued.mem_iff.mp (hinv.base.handedOut pid n hmem)).1
  have hrequests := hinv.requests pid
  rw [hphase] at hrequests
  refine ⟨Concurrent.inv_accept hinv.base c call.operation comm hp hreply, hinv.free, ?_, ?_, ?_,
    ?_, ?_, ?_⟩
  · intro n c' hc'
    refine (hinv.slots n c' hc').congr fun q op hq => Function.update_of_ne ?_ _ _
    intro heq
    subst heq
    rw [hphase] at hq
    cases hq
  · intro q p' hp'
    by_cases hq : q = pid
    · subst hq
      simp only [accept, Concurrent.accept, Function.update_self, Option.some.injEq] at hp'
      subst hp'
      exact hprocess.conclude hsuits hrank hthree
    · simp only [accept, Concurrent.accept, Function.update_of_ne hq] at hp'
      exact hinv.process q p' hp'
  · exact (Function.forall_update_iff s.phase fun q ph =>
      RequestsInv s.Live q (s.base.requests q) ph).mpr ⟨hrequests, fun q _ => hinv.requests q⟩
  · intro q
    by_cases hq : q = pid
    · subst hq
      simp only [accept, Concurrent.accept, Function.update_self]
      rfl
    · simp only [accept, Concurrent.accept, Function.update_of_ne hq]
      exact hinv.replies q
  · intro n
    refine (hinv.work n).congr fun q op hq => Function.update_of_ne ?_ _ _
    intro heq
    subst heq
    rw [hphase] at hq
    cases hq
  · intro n t' hl' q hq p' hp' hne hmax
    by_cases hself : q = pid
    · subst hself
      simp only [accept, Concurrent.accept, Function.update_self, Option.some.injEq] at hp'
      subst hp'
      left
      rcases hinv.table n t' hl' q hq p hp (by rw [hphase]; rintro ⟨⟩) hmax with
        hsome | ⟨_, body', _, hbody', hn⟩
      · exact isSome_conclude hsome
      · rw [hone, List.mem_singleton] at hbody'
        subst hbody'
        obtain ⟨newComm, hnew, hn⟩ := Option.bind_eq_some_iff.mp hn
        split at hn
        · rename_i hnonneg
          cases hn
          have hroom := addError_eq_none hinv hp hbody hnew hnonneg hmax
          rw [← hprocess.pid_eq] at hsuits
          obtain ⟨p', hconclude, hsome⟩ := @conclude_adds _ _ _ c _ _ _ hsuits hcomm _ hnew hnonneg
            hroom
          rw [hconclude]
          exact hsome
        · cases hn
    · simp only [accept, Concurrent.accept, Function.update_of_ne hself] at hp' hne ⊢
      exact hinv.table n t' hl' q hq p' hp' hne hmax

/-! ## The steps of the server -/

/-- A request on its way is the only one of its process, which waits. -/
theorem sent_of_request (hinv : Inv cfg s) {req : Server.CommunicatorRequest}
    {before after : List Server.CommunicatorRequest}
    (hrequest : s.base.requests req.source = before ++ req :: after) :
    before = [] ∧ after = [] ∧ s.phase req.source = .sent ⟨req.communicator, req.operation⟩ ∧
      (ReservedHandle req.communicator ∨ ∃ t, s.Live req.communicator t ∧
        t.members[req.rank]? = some req.source ∧ req.operation.Legal t.members) := by
  have hrequests := hinv.requests req.source
  rw [hrequest] at hrequests
  have hnone : ¬ before ++ req :: after = [] := by simp
  cases hphase : s.phase req.source with
  | sent call =>
      rw [hphase] at hrequests
      obtain ⟨rank, hone, hknown⟩ := hrequests
      cases before with
      | nil =>
          simp only [List.nil_append, List.cons.injEq] at hone
          obtain ⟨hreq, rfl⟩ := hone
          have hcomm : req.communicator = call.handle := by rw [hreq]
          have hop : req.operation = call.operation := by rw [hreq]
          have hrank : req.rank = rank := by rw [hreq]
          refine ⟨rfl, rfl, by rw [hcomm, hop], ?_⟩
          rw [hcomm, hop, hrank]
          exact hknown
      | cons first before =>
          have hlength := congrArg List.length hone
          simp at hlength
  | running => rw [hphase] at hrequests; exact absurd hrequests hnone
  | stored call => rw [hphase] at hrequests; exact absurd hrequests hnone
  | working call => rw [hphase] at hrequests; exact absurd hrequests hnone
  | answered call => rw [hphase] at hrequests; exact absurd hrequests hnone
  | lost call => rw [hphase] at hrequests; exact absurd hrequests hnone
  | ended => rw [hphase] at hrequests; exact absurd hrequests hnone

/-- The phases after a delivery from `q`: it has gone from `sent` to one of the
next three, and of the others only stored ones have moved. -/
structure Moves (phase phase' : Pid → Phase) (q : Pid) : Prop where
  self : ∃ call, phase' q = .stored call ∨ phase' q = .working call ∨ phase' q = .lost call
  others : ∀ p, p ≠ q → phase' p = phase p ∨ ∃ call call', phase p = .stored call ∧
    (phase' p = .working call' ∨ phase' p = .lost call')

/-- What a delivery leaves as it is, if the communicators of the server keep
their tables. -/
theorem inv_moves (hinv : Inv cfg s) {base : Concurrent} {phase' : Pid → Phase} {q : Pid}
    {call : Call} (hsent : s.phase q = .sent call) (hmoves : Moves s.phase phase' q)
    (hbase : base.Inv) (hfree : base.server[1]? = some none ∧ base.server[2]? = some none)
    (hlive : ∀ n t, (∃ c, base.server[n]? = some (some c) ∧ c.tables = t) ↔ s.Live n t)
    (hlength : base.server.length = s.base.server.length)
    (hprocesses : base.processes = s.base.processes) (hreplies : base.replies = s.base.replies)
    (hrequests : base.requests = Function.update s.base.requests q [])
    (hslots : ∀ (n : Nat) c, base.server[n]? = some (some c) → SlotsInv cfg phase' n c)
    (hwork : ∀ n, WorkInv cfg s.Live phase' n (base.work n)) {rounds : Nat → Nat}
    {dropped : List Server.CommunicatorRequest} :
    Inv cfg { s with base := base, phase := phase', rounds := rounds, dropped := dropped } := by
  refine ⟨hbase, hfree, hslots, ?_, ?_, ?_, ?_, ?_⟩
  · intro pid p hp
    simp only [hprocesses] at hp
    exact (hinv.process pid p hp).mono fun n t h => (hlive n t).mpr h
  · intro pid
    simp only [hrequests]
    by_cases hpid : pid = q
    · subst hpid
      obtain ⟨call', h | h | h⟩ := hmoves.self <;> rw [Function.update_self, h] <;> rfl
    · rw [Function.update_of_ne hpid]
      have hold := hinv.requests pid
      rcases hmoves.others pid hpid with h | ⟨_, _, hstored, h | h⟩
      · rw [h]
        exact hold.mono fun n t h => (hlive n t).mpr h
      · rw [hstored] at hold
        rw [h]
        exact hold
      · rw [hstored] at hold
        rw [h]
        exact hold
  · intro pid
    simp only [hreplies]
    have hold := hinv.replies pid
    by_cases hpid : pid = q
    · subst hpid
      rw [hsent] at hold
      obtain ⟨call', h | h | h⟩ := hmoves.self <;> rw [h] <;> exact hold
    · rcases hmoves.others pid hpid with h | ⟨_, _, hstored, h | h⟩
      · rw [h]
        exact hold.mono fun n t h => (hlive n t).mpr h
      · rw [hstored] at hold
        rw [h]
        exact hold
      · rw [hstored] at hold
        rw [h]
        exact hold
  · exact fun n => (hwork n).mono fun n t h => (hlive n t).mpr h
  · intro n t hl pid hpid p hp hne hmax
    simp only [hlength] at hmax
    simp only [hprocesses] at hp
    have hl' : s.Live n t := (hlive n t).mp hl
    have hended : s.phase pid ≠ .ended := by
      intro hended
      by_cases hself : pid = q
      · rw [hself, hsent] at hended
        cases hended
      · rcases hmoves.others pid hself with h | ⟨_, _, hstored, _⟩
        · exact hne (h.trans hended)
        · rw [hstored] at hended
          cases hended
    rcases hinv.table n t hl' pid hpid p hp hended hmax with
      hsome | ⟨call', body, hanswered, hbody, hn⟩
    · exact Or.inl hsome
    · right
      refine ⟨call', body, ?_, by simpa only [hreplies] using hbody, hn⟩
      have hself : pid ≠ q := by
        rintro rfl
        rw [hsent] at hanswered
        cases hanswered
      rcases hmoves.others pid hself with h | ⟨_, _, hstored, _⟩
      · exact h.trans hanswered
      · rw [hstored] at hanswered
        cases hanswered

/-- Another version of a communicator, with the same tables. -/
theorem live_set {c c' : Server.Communicator} (hc : s.base.server[n]? = some (some c))
    (htables : c'.tables = c.tables) (i : Nat) (t : Tables) :
    (∃ c'', (s.base.server.set n (some c'))[i]? = some (some c'') ∧ c''.tables = t) ↔
      s.Live i t := by
  have hlt := (List.getElem?_eq_some_iff.mp hc).1
  by_cases hi : i = n
  · subst hi
    simp only [List.getElem?_set_self hlt, Option.some.injEq, Live, hc, exists_eq_left', htables]
  · rw [Live, List.getElem?_set_ne (Ne.symm hi)]

end Application

end EsalsaMpi
