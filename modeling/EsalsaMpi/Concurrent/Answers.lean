import EsalsaMpi.Concurrent.Arrival
import EsalsaMpi.Concurrent.Counting

/-!
# Every collective call is answered

When all members of a communicator have made the same request and the server is
done with them, everybody has been sent an answer: `answered_of_processed`.  Of
the handles that a client may use this fails for `EMPI_COMM_SELF` alone.  The
client accepts it in every call, but in the list of the server its place is
empty, so that `deliverRequest` drops the request as one for an unknown
communicator and the caller waits forever (`answers_iff`).
-/

namespace EsalsaMpi

/-- `EMPI_COMM_SELF`. -/
def empiCommSelf : Nat := 1

/-- `EMPI_COMM_NULL`. -/
def empiCommNull : Nat := 2

namespace Application

variable {cfg : Server.Config} {order : Server.HashOrder} {s : Application} {pid : Pid}
  {h k : Nat} {members : List Pid}

/-- All members have made their request number `k` on the handle `h`, and they
have asked for the same. -/
def AllIssued (s : Application) (h : Nat) (members : List Pid) (k : Nat) : Prop :=
  (∀ q ∈ members, k < (s.issued h q).length) ∧
    ∀ q ∈ members, ∀ q' ∈ members, ∀ op op', (s.issued h q)[k]? = some op →
      (s.issued h q')[k]? = some op' → op.Same op'

/-- The server has received these requests, and has finished its operation
number `k` on the communicator, if it has begun one. -/
def AllProcessed (s : Application) (h : Nat) (members : List Pid) (k : Nat) : Prop :=
  (∀ q ∈ members, k + (s.base.requests q).countP (·.communicator = h) < (s.issued h q).length) ∧
    (s.base.work h = [] ∨ k + 1 < s.rounds h)

/-- The calls on `h` are answered: to everybody, when the server has processed
the requests of all members, and no request is dropped. -/
def Answers (s : Application) (h : Nat) : Prop :=
  (∀ pid p c, s.base.processes pid = some p → p.comms h = some c →
    ∀ k, s.AllIssued h c.tables.members k → s.AllProcessed h c.tables.members k →
      ∀ q ∈ c.tables.members, k < s.answers h q) ∧
  ∀ req ∈ s.dropped, req.communicator ≠ h

/-- A process whose request is on its way has it among its requests. -/
theorem countP_of_sent (hinv : Inv cfg s) {op : Server.Operation}
    (hphase : s.phase pid = .sent ⟨h, op⟩) :
    (s.base.requests pid).countP (·.communicator = h) = 1 := by
  have hrequests := hinv.requests pid
  rw [hphase] at hrequests
  obtain ⟨rank, hone, _⟩ := hrequests
  simp [hone]

/-- Not all members wait in the slots of their communicator. -/
theorem exists_not_stored (hinv : Inv cfg s) (hcalls : s.CallsInv) {c : Server.Communicator}
    (hlive : s.base.server[h]? = some (some c)) (hpid : pid ∈ c.tables.members) :
    ∃ q ∈ c.tables.members, ∀ op, s.phase q ≠ .stored ⟨h, op⟩ := by
  by_contra hall
  have hslots := hinv.slots h c hlive
  have hkept := hinv.base.kept h c hlive
  have hstored : ∀ q ∈ c.tables.members, ∃ op, s.phase q = .stored ⟨h, op⟩ := by
    intro q hq
    by_contra hnone
    exact hall ⟨q, hq, fun op hop => hnone ⟨op, hop⟩⟩
  -- then every slot is taken
  have htaken : ∀ slot ∈ c.messages, slot.isSome = true := by
    intro slot hslot
    obtain ⟨r, hr⟩ := List.getElem?_of_mem hslot
    have hlt := (List.getElem?_eq_some_iff.mp hr).1
    rw [hkept.length_messages, Server.Communicator.size] at hlt
    have hmember := List.getElem?_eq_getElem hlt
    obtain ⟨op, hop⟩ := hstored _ (List.getElem_mem hlt)
    obtain ⟨r', m, hr', hsource⟩ := hcalls.stored h c hlive _ op hop
    have hmember' := (hslots.slot r' m hr').2.1
    rw [hsource, ← hmember] at hmember'
    have hlt' := (List.getElem?_eq_some_iff.mp hr').1
    rw [hkept.length_messages, Server.Communicator.size] at hlt'
    obtain rfl := (List.getElem?_inj hlt' hkept.nodup).mp hmember'
    rw [hr] at hr'
    cases hr'
    rfl
  have hfull : c.participants = c.size := by
    rw [hslots.participants, List.countP_eq_length.mpr htaken, hkept.length_messages]
  rcases hslots.room with hempty | hroom
  · rw [hempty] at hpid
    cases hpid
  · omega

/-- **Every member is answered**, when all have asked for the same and the server
is done with it. -/
theorem answered_of_processed (hinv : Inv cfg s) (hcalls : s.CallsInv) {t : Tables}
    (hl : s.Live h t) (hissued : s.AllIssued h t.members k)
    (hprocessed : s.AllProcessed h t.members k) : ∀ q ∈ t.members, k < s.answers h q := by
  intro q hq
  have hmade := hissued.1 q hq
  have hbegun := hcalls.begun h t hl q hq
  -- a member without an answer waits for it, with its request number `k`
  by_contra hnot
  rcases Phase.waits_cases h (s.phase q) with hnone | ⟨op, hwaits, hphase⟩
  · rw [hcalls.answers_eq hnone] at hnot
    exact hnot hmade
  obtain ⟨hlength, hget⟩ := hcalls.issued_eq hwaits
  obtain rfl : k = s.answers h q := by omega
  rcases hphase with hphase | hphase | hphase | hphase
  · have hleft := hprocessed.1 q hq
    rw [countP_of_sent hinv hphase] at hleft
    omega
  · -- then all members are stored
    rw [hphase, Phase.arriving, if_pos rfl] at hbegun
    obtain ⟨c, hc, rfl⟩ := hl
    obtain ⟨q', hq', hnot'⟩ := exists_not_stored hinv hcalls hc hq
    have hmade' := hissued.1 q' hq'
    have hbegun' := hcalls.begun h c.tables ⟨c, hc, rfl⟩ q' hq'
    have hleft := hprocessed.1 q' hq'
    have harriving : (s.phase q').arriving h ≠ 0 := by omega
    rcases Phase.waits_cases h (s.phase q') with hnone | ⟨op', _, h' | h' | h' | h'⟩
    · have hle := (s.phase q').arriving_le h
      rw [hnone] at hle
      exact harriving (Nat.le_zero.mp hle)
    · rw [countP_of_sent hinv h'] at hleft
      rw [h', Phase.arriving, if_pos rfl] at hbegun'
      omega
    · exact hnot' op' h'
    · rw [h'] at harriving
      exact harriving rfl
    · rw [h'] at harriving
      exact harriving rfl
  · have haudience := hcalls.working h q op hphase
    have harriving : (s.phase q).arriving h = 0 := by
      rw [hphase]
      rfl
    rw [harriving] at hbegun
    rcases hprocessed.2 with hdone | hlater
    · rw [hdone] at haudience
      cases haudience
    · omega
  · obtain ⟨k', hk', q₁, hq₁, q₂, hq₂, op₁, op₂, hop₁, hop₂, hne⟩ := hcalls.lost h t hl q op hphase
    obtain rfl : k' = s.answers h q := by omega
    exact hne (hissued.2 q₁ hq₁ q₂ hq₂ op₁ op₂ hop₁ hop₂)

/-- The calls on every other handle are answered. -/
theorem answers_of_reachable (hreachable : Reachable cfg order s) (hself : h ≠ empiCommSelf)
    (hnull : h ≠ empiCommNull) : s.Answers h := by
  have hinv := inv_of_reachable hreachable
  have hcalls := callsInv_of_reachable hreachable
  have hreserved : ¬ ReservedHandle h := fun hr => hr.elim hself hnull
  constructor
  · intro pid p c hp hc k hissued hprocessed
    have hl := (((hinv.process pid p hp).known h c hc).2.resolve_left hreserved).1
    exact answered_of_processed hinv hcalls hl hissued hprocessed
  · intro req hreq heq
    exact hreserved (heq ▸ hcalls.dropped req hreq)

/-- A dup of `EMPI_COMM_SELF` is dropped. -/
theorem exists_dropped_self (cfg : Server.Config) (order : Server.HashOrder) :
    ∃ s, Reachable cfg order s ∧ ∃ req ∈ s.dropped, req.communicator = empiCommSelf := by
  have happ : cfg.IsApplication (setPid 0 0) :=
    cfg.isApplication_first (Nat.lt_trans Nat.zero_lt_one cfg.one_lt_clusters)
  obtain ⟨size, hsize, hlt⟩ := id happ
  obtain ⟨p, hp, _⟩ := initCommunicators_mirrors happ
  have hstart : ∀ server, (Concurrent.start cfg server).processes (setPid 0 0) = some p := by
    intro server
    simp only [Concurrent.start, System.start, hsize, if_pos hlt, hp]
  obtain ⟨_, hpid, _, ⟨c, hc, hhandle, hmembers⟩, _⟩ := start_comms (hstart [])
  -- it calls dup, and its request is delivered
  have hserver := Server.initCommWorld_eq cfg
  have hreach := Relation.ReflTransGen.single (@Step.call cfg order (start cfg
    [some (Server.Communicator.fresh 0 (Server.tablesSpec (Server.worldMembers cfg))), none, none])
    (setPid 0 0) p c empiCommSelf .dup rfl (hstart _) hc trivial)
  have hrequest : p.request c .dup = ⟨setPid 0 0, empiCommSelf, c.globalRank, .dup⟩ := by
    rw [Process.request, hpid, hhandle]
    rfl
  have hdeliver := hreach.tail (@Step.deliver cfg order _ (p.request c .dup) [] []
    (by simp [call, Concurrent.request, start, Concurrent.start]) rfl)
  refine ⟨_, ⟨_, hserver, hdeliver⟩, p.request c .dup, ?_, by rw [hrequest]⟩
  have hsent : (call (start cfg [some (Server.Communicator.fresh 0 (Server.tablesSpec
      (Server.worldMembers cfg))), none, none]) (setPid 0 0) p c empiCommSelf .dup).phase
      (p.request c .dup).source = .sent ⟨empiCommSelf, .dup⟩ := by
    simp only [call, hrequest, Function.update_self]
  have hunknown : (call (start cfg [some (Server.Communicator.fresh 0 (Server.tablesSpec
      (Server.worldMembers cfg))), none, none]) (setPid 0 0) p c empiCommSelf .dup).base.server[
      (p.request c .dup).communicator]? = some none := by
    rw [hrequest]
    rfl
  simp only [deliver, delivery_dropped hsent hunknown]
  exact List.mem_append_right _ (List.mem_singleton_self _)

/-- **A collective call on a handle other than `EMPI_COMM_NULL`** is answered in
every run if and only if the handle is not `EMPI_COMM_SELF`. -/
theorem answers_iff (cfg : Server.Config) (order : Server.HashOrder) {h : Nat}
    (hnull : h ≠ empiCommNull) :
    (∀ s, Reachable cfg order s → s.Answers h) ↔ h ≠ empiCommSelf := by
  constructor
  · rintro hall rfl
    obtain ⟨s, hs, req, hreq, hcomm⟩ := exists_dropped_self cfg order
    exact (hall s hs).2 req hreq hcomm
  · exact fun hself s hs => answers_of_reachable hs hself hnull

/-- On the world of `Config.pair`, say. -/
theorem answers_world :
    (0 ≠ empiCommSelf) ∧ ∀ s, Reachable .pair .insertion s → s.Answers 0 :=
  ⟨by decide, (answers_iff .pair .insertion (by decide)).mpr (by decide)⟩

/-- The dup of `EMPI_COMM_SELF` at the first process of `Config.pair`. -/
def selfDup : Server.CommunicatorRequest := ⟨0, empiCommSelf, 0, .dup⟩

/-- The run in which the server has received it. -/
def selfDupped : Application :=
  ((start .pair System.pairServer).call 0 (pairProcess 0)
    (((pairProcess 0).comms empiCommSelf).getD nullCommunicator) empiCommSelf .dup).deliver .pair
      .insertion selfDup []

theorem reachable_selfDupped : Reachable .pair .insertion selfDupped := by
  refine ⟨System.pairServer, Server.initCommWorld_eq .pair, ?_⟩
  have hcall := Relation.ReflTransGen.single (@Step.call .pair .insertion
    (start .pair System.pairServer) 0 (pairProcess 0) _ empiCommSelf .dup rfl rfl rfl trivial)
  exact hcall.tail (@Step.deliver .pair .insertion _ selfDup [] [] rfl rfl)

/-- **A dup of `EMPI_COMM_SELF` has no answer**: its one member has asked, the
server is done, and the process waits. -/
theorem not_answers_selfDupped : Reachable .pair .insertion selfDupped ∧
    selfDupped.phase 0 = .lost ⟨empiCommSelf, .dup⟩ ∧ selfDupped.dropped = [selfDup] ∧
      ¬ selfDupped.Answers empiCommSelf := by
  refine ⟨reachable_selfDupped, by decide, by decide, ?_⟩
  rintro ⟨hanswered, _⟩
  have hissued : selfDupped.AllIssued empiCommSelf [0] 0 := by
    constructor
    · intro q hq
      rw [List.mem_singleton.mp hq]
      decide
    · intro q hq q' hq' op op' hop hop'
      rw [List.mem_singleton.mp hq] at hop
      rw [List.mem_singleton.mp hq'] at hop'
      cases hop
      cases hop'
      trivial
  have hprocessed : selfDupped.AllProcessed empiCommSelf [0] 0 := by
    refine ⟨fun q hq => ?_, Or.inl rfl⟩
    rw [List.mem_singleton.mp hq]
    decide
  exact absurd (hanswered 0 (pairProcess 0) _ rfl rfl 0 hissued hprocessed 0
    (List.mem_singleton_self 0)) (by decide)

end Application

end EsalsaMpi
