import EsalsaMpi.Backend.Requests.Runs

/-!
# `EMPI_Test`

A test of a request that has completed sets the flag to 1, frees the request, and delivers
what is due; a test of one that has not sets it to 0 and leaves the request alone
(`TestsProperly`).  Four things stand in the way, and they are all (`testsProperly_iff`):

* the branch for a receive from another cluster does not set the flag of a request that goes
  on, so that one in which the caller has left a 1 is freed;
* a request that `EMPI_Request_get_status` has completed has no status for the test;
* a message from outside is only unpacked if it has as many elements as there is room for;
* the sender of a message of the own cluster is found in the tables of the communicator.
-/

namespace EsalsaMpi

namespace Requests

open MatchQueue

variable {α : Type}

/-- The operation of a request has completed: in the library, by the call that began it, with
a message that was found before, or with one that is there. -/
inductive HasCompleted (p : Posted α) (mb : Mailbox) : Prop where
  | library (h : p.req = .sent ∨ ∃ m, p.req = .received m)
  | wideSend (hlocal : p.isLocal = false) (hsend : p.isSend = true)
  | found (h : p.completed = true)
  | offered (hlocal : p.isLocal = false) (hsend : p.isSend = false)
      (h : mb.Offers p.pattern false)

/-- The message from another cluster that is for the request. -/
def Posted.incoming (p : Posted α) (mb : Mailbox) : Option Arrival :=
  if p.completed then
    p.message
  else
    (takeFirst p.pattern.Matches (mb.contents p.pattern.comm)).map Prod.fst

/-- **What is due** to a request that has completed: the elements in its buffer, and the
status. -/
inductive Due (pk : Packing α) (p : Posted α) (mb : Mailbox) : List α → Status → Prop where
  | send (hsend : p.isSend = true) : Due pk p mb p.buf p.sendStatus
  | library {m : LocalSend α} (hopen : p.completed = false) (hm : p.req = .received m) :
      Due pk p mb (delivered m.elements p.buf m.sender m.tag p.type).1
        (delivered m.elements p.buf m.sender m.tag p.type).2
  | message {a : Arrival} {xs : List α} {rank : Nat} (hlocal : p.isLocal = false)
      (hsend : p.isSend = false) (hfree : p.completed = true ∨ ∀ m, p.req ≠ .received m)
      (ha : p.incoming mb = some a) (hsent : Sent pk a xs rank) (hroom : xs.length ≤ p.count) :
      Due pk p mb (delivered xs p.buf rank a.message.tag p.type).1
        (delivered xs p.buf rank a.message.tag p.type).2

/-- **`EMPI_Test` of the request `p`**: it is freed and what is due is delivered if it has
completed, and otherwise it is intact. -/
def TestsProperly (pk : Packing α) (mpiAnyTag : Int) (s : Client α) (args : Arguments)
    (p : Posted α) : Prop :=
  ∃ r, empiTest pk mpiAnyTag s args = .returned r ∧
    (∀ handle, handle ≠ args.req.toNat → r.client.reqs handle = s.reqs handle) ∧
      ((r.arguments.flag = 1 ∧ HasCompleted p s.mailbox ∧ r.arguments.req = requestNull ∧
          r.client.reqs args.req.toNat = none ∧
            ∃ buf status, Due pk p s.mailbox buf status ∧
              r.request.map (fun q => q.buf) = some buf ∧
                r.arguments.status = args.status.map fun _ => status) ∨
        r.arguments.flag = 0 ∧ ¬ HasCompleted p s.mailbox ∧ r.arguments.req = args.req ∧
          r.client.reqs args.req.toNat = some p)

/-- **When a test goes well.**  A caller has cleared the flag if a receive from another cluster
goes on; what was unpacked before is still in the buffer, and in the status if one is wanted;
a message from outside has as many elements as there is room for; and the rank of a sender in
the library is translated back to its own. -/
structure TestCondition (pk : Packing α) (p : Posted α) (mb : Mailbox) (flag : Int)
    (status : Option Status) : Prop where
  flag : p.isLocal = false → p.isSend = false → p.source ≠ empiAnySource →
    ¬ HasCompleted p mb → flag = 0
  unpacked : p.unpacked = true → ∃ a xs rank, p.message = some a ∧ Sent pk a xs rank ∧
    xs.length ≤ p.count ∧ p.buf = xs ++ p.buf.drop xs.length ∧
      ∀ st, status = some st →
        st = setStatus rank a.message.tag empiSuccess p.type xs.length false
  count : p.isLocal = false → p.isSend = false → p.unpacked = false →
    (∀ m, p.req ≠ .received m) → HasCompleted p mb →
      ∀ a, p.incoming mb = some a → a.message.count = p.count
  sender : p.completed = false → ∀ m, p.req = .received m →
    status = none ∨ (p.c.getLocalRank m.sender).bind p.c.getGlobalRank = some m.sender

/-- The next message that a process takes from MPI is for a communicator that it has. -/
def NextKnown (mb : Mailbox) : Prop :=
  ∀ a ∈ mb.incoming.head?, (mb.queue a.message.comm).isSome

section Messages

variable {pk : Packing α} {mb mb' : Mailbox} {pat : Pattern} {a : Arrival} {xs : List α}
  {rank : Nat}

/-- A search that does not block finds what the mailbox offers. -/
theorem poll_cases (hnext : NextKnown mb) (pat : Pattern) :
    (∃ a mb', mb.poll pat false = .found a mb' ∧ mb.Offers pat false) ∨
      ∃ mb', mb.poll pat false = .pending mb' ∧ ¬ mb.Offers pat false := by
  cases hpending : mb.findPendingMessage pat with
  | some r =>
      have hpoll : mb.poll pat false = .found r.1 r.2 := by
        rw [Mailbox.poll, hpending]
      exact Or.inl ⟨r.1, r.2, hpoll, Mailbox.offers_of_poll hpoll⟩
  | none =>
      have hnone := Mailbox.findPendingMessage_eq_none hpending
      have hpoll : mb.poll pat false =
          Mailbox.probeIncoming pat false mb.queue mb.incoming := by
        rw [Mailbox.poll, hpending]
      have hqueue : ∀ b ∈ (mb.queue pat.comm).getD [], ¬ pat.Matches b = true :=
        fun b hb hmatch => Bool.eq_false_iff.mp (hnone b hb) hmatch
      cases hincoming : mb.incoming with
      | nil =>
          refine Or.inr ⟨⟨[], mb.queue⟩, by rw [hpoll, hincoming]; rfl, ?_⟩
          rintro (⟨b, hb, hmatch⟩ | ⟨b, hb, hmatch⟩)
          · exact hqueue b hb hmatch
          · rw [hincoming] at hb
            cases hb
      | cons b rest =>
          by_cases hmatch : pat.Matches b = true
          · have hfound : mb.poll pat false = .found b ⟨rest, mb.queue⟩ := by
              rw [hpoll, hincoming, Mailbox.probeIncoming, if_pos hmatch]
            exact Or.inl ⟨b, _, hfound, Mailbox.offers_of_poll hfound⟩
          · obtain ⟨l, hl⟩ := Option.isSome_iff_exists.mp (hnext b (by rw [hincoming]; rfl))
            refine Or.inr ⟨(⟨rest, mb.queue⟩ : Mailbox).setQueue b.message.comm (l ++ [b]), ?_, ?_⟩
            · rw [hpoll, hincoming, Mailbox.probeIncoming, if_neg hmatch, Mailbox.storeMessage,
                show (⟨rest, mb.queue⟩ : Mailbox).queue b.message.comm = some l from hl]
              rfl
            · rintro (⟨b', hb', hmatch'⟩ | ⟨b', hb', hmatch'⟩)
              · exact hqueue b' hb' hmatch'
              · have hsame : b' = b := by simpa [hincoming] using hb'
                exact hmatch (hsame ▸ hmatch')

/-- What the header of a message says. -/
theorem header_of_sent (hsent : Sent pk a xs rank) :
    a.message.count = xs.length ∧ a.message.source = rank := by
  obtain ⟨pid, opcode, dest, cs, hsend, rfl⟩ := hsent
  obtain ⟨_, dstPid, payload, _, hmessage⟩ := exists_of_doSend hsend
  rw [hmessage]
  exact ⟨rfl, rfl⟩

/-- What unpacking yields. -/
theorem unpackMessage_of_sent (hpk : pk.Lawful) (hsent : Sent pk a xs rank) (buf : List α)
    (type : Int) :
    unpackMessage pk buf xs.length type a.message =
        some (delivered xs buf rank a.message.tag type) ∧
      ∀ count, xs.length < count → unpackMessage pk buf count type a.message = none := by
  obtain ⟨pid, opcode, dest, cs, hsend, rfl⟩ := hsent
  exact unpackMessage_sent hpk buf type hsend

/-- A message with as many elements as there is room for is delivered. -/
theorem finalize_of_count (hpk : pk.Lawful) {x : Probing α}
    (hcompleted : x.request.completed = true) (hunpacked : x.request.unpacked = false)
    (hmessage : x.request.message = some a) (hsent : Sent pk a xs rank)
    (hcount : a.message.count = x.request.count) :
    ∃ x', finalize pk x = .returned x' ∧ x'.flag = x.flag ∧
      x'.request.buf = (delivered xs x.request.buf rank a.message.tag x.request.type).1 ∧
        x'.status = x.status.map fun _ =>
          (delivered xs x.request.buf rank a.message.tag x.request.type).2 := by
  have hlength : x.request.count = xs.length := hcount.symm.trans (header_of_sent hsent).1
  have hunpack := (unpackMessage_of_sent hpk hsent x.request.buf x.request.type).1
  rw [← hlength] at hunpack
  have hfinal : messagingFinalizeReceive pk x.request.toRequest =
      some ({ x.request.toRequest with
        buf := (delivered xs x.request.buf rank a.message.tag x.request.type).1
        unpacked := true
        message := some a },
        some (delivered xs x.request.buf rank a.message.tag x.request.type).2) := by
    rw [messagingFinalizeReceive, if_neg (by simp [hcompleted]), if_neg (by simp [hunpacked]),
      hmessage, Option.bind_some, hunpack]
    rfl
  rw [finalize, hfinal]
  exact ⟨_, rfl, rfl, rfl, rfl⟩

/-- Another message ends the process. -/
theorem count_of_finalize (hpk : pk.Lawful) {x x' : Probing α}
    (hunpacked : x.request.unpacked = false) (hmessage : x.request.message = some a)
    (hsent : Sent pk a xs rank) (hroom : xs.length ≤ x.request.count)
    (h : finalize pk x = .returned x') : a.message.count = x.request.count := by
  obtain ⟨r, status, hfinal, _⟩ := finalize_eq_returned h
  obtain ⟨_, ⟨hdone, _⟩ | ⟨_, a', result, ha', hresult, _⟩⟩ := messagingFinalizeReceive_cases hfinal
  · rw [hunpacked] at hdone
    cases hdone
  · rw [hmessage] at ha'
    cases ha'
    rw [(header_of_sent hsent).1]
    by_contra hne
    have hshort := (unpackMessage_of_sent hpk hsent x.request.buf x.request.type).2
      x.request.count (lt_of_le_of_ne hroom hne)
    rw [hshort] at hresult
    cases hresult

end Messages

/-- The test, in the branches of `probe_request`. -/
def ProbesProperly (pk : Packing α) (mpiAnyTag : Int) (p : Posted α) (mb : Mailbox) (flag : Int)
    (status : Option Status) : Prop :=
  ∃ x, probe pk mpiAnyTag false ⟨p, mb, flag, status⟩ = .returned x ∧
    ((x.flag = 1 ∧ HasCompleted p mb ∧ ∃ buf st, Due pk p mb buf st ∧ x.request.buf = buf ∧
        x.status = status.map fun _ => st) ∨
      x.flag = 0 ∧ ¬ HasCompleted p mb ∧ x.request = p)

section Branches

variable {pk : Packing α} {mpiAnyTag : Int} {s : Client α} {p : Posted α} {mb : Mailbox}
  {args : Arguments} {flag : Int} {status : Option Status}

/-- A request that is there. -/
theorem req_ne_null (h : s.handleToRequest args.req = some p) : args.req ≠ requestNull := by
  intro hnull
  rw [hnull, Client.handleToRequest, if_pos (Or.inl (by decide))] at h
  cases h

theorem testsProperly_iff_probes (hp : s.handleToRequest args.req = some p) :
    TestsProperly pk mpiAnyTag s args p ↔
      ProbesProperly pk mpiAnyTag p s.mailbox args.flag args.status := by
  have htest : empiTest pk mpiAnyTag s args =
      (probe pk mpiAnyTag false ⟨p, s.mailbox, args.flag, args.status⟩).map (finish s args) := by
    rw [empiTest, probeRequest, if_neg (req_ne_null hp), hp]
  rw [TestsProperly, htest]
  constructor
  · rintro ⟨r, hr, _, hcase⟩
    cases hx : probe pk mpiAnyTag false ⟨p, s.mailbox, args.flag, args.status⟩ with
    | returned x =>
        rw [hx] at hr
        cases hr
        refine ⟨x, hx, ?_⟩
        simp only [finish] at hcase
        by_cases hflag : x.flag = 1
        · simp only [if_pos hflag] at hcase
          rcases hcase with ⟨_, hdone, _, _, buf, st, hdue, hbuf, hst⟩ | ⟨hzero, _⟩
          · exact Or.inl ⟨hflag, hdone, buf, st, hdue, Option.some.inj hbuf, hst⟩
          · cases hzero
        · simp only [if_neg hflag] at hcase
          rcases hcase with ⟨hone, _⟩ | ⟨hzero, hopen, _, hsame⟩
          · exact absurd hone hflag
          · exact Or.inr ⟨hzero, hopen, by simpa using hsame⟩
    | waiting x =>
        rw [hx] at hr
        cases hr
    | crashed =>
        rw [hx] at hr
        cases hr
    | undefined =>
        rw [hx] at hr
        cases hr
  · rintro ⟨x, hx, hcase⟩
    refine ⟨finish s args x, by rw [hx]; rfl, fun handle hne => ?_, ?_⟩
    · rw [finish]
      split <;> exact Function.update_of_ne hne _ _
    · rcases hcase with ⟨hflag, hdone, buf, st, hdue, hbuf, hst⟩ | ⟨hflag, hopen, hsame⟩
      · rw [finish, if_pos hflag]
        exact Or.inl ⟨rfl, hdone, rfl, Function.update_self _ _ _, buf, st, hdue,
          congrArg some hbuf, hst⟩
      · rw [finish, if_neg (by rw [hflag]; decide), hsame]
        exact Or.inr ⟨hflag, hopen, rfl, Function.update_self _ _ _⟩

/-- The status of a message of the own cluster is right if its sender is found. -/
theorem localStatus_eq_iff {r : Request α} {m : LocalSend α} (htag : m.tag ≠ mpiAnyTag) :
    AnyReceive.localStatus mpiAnyTag r m =
        some (delivered m.elements r.buf m.sender m.tag r.type).2 ↔
      (r.c.getLocalRank m.sender).bind r.c.getGlobalRank = some m.sender := by
  rw [AnyReceive.localStatus]
  cases r.c.getLocalRank m.sender with
  | none => exact iff_of_false (by rintro ⟨⟩) (by rintro ⟨⟩)
  | some source =>
      rw [Option.bind_some, Option.bind_some, translateStatus]
      cases r.c.getGlobalRank source with
      | none => exact iff_of_false (by rintro ⟨⟩) (by rintro ⟨⟩)
      | some sender =>
          show some (setStatus sender (mpi2tag mpiAnyTag m.tag) empiSuccess r.type
            m.elements.length false) = _ ↔ _
          rw [mpi2tag, if_neg htag, Option.some.injEq, Option.some.injEq]
          constructor
          · intro h
            exact Int.ofNat_inj.mp (congrArg Status.source h)
          · rintro rfl
            rfl

/-- What the library reports on a message that it has received. -/
theorem translate_received_iff (hlive : Live pk mpiAnyTag p) {m : LocalSend α}
    (hm : p.req = .received m) :
    translate mpiAnyTag p status =
        .returned (status.map fun _ =>
          (delivered m.elements p.buf m.sender m.tag p.type).2) ↔
      status = none ∨ (p.c.getLocalRank m.sender).bind p.c.getGlobalRank = some m.sender := by
  have hsame := @localStatus_eq_iff α mpiAnyTag p.toRequest m (hlive.received m hm).1.legal.tag
  cases status with
  | none => exact iff_of_true rfl (Or.inl rfl)
  | some old =>
      rw [translate, ← hsame]
      simp only [hm, Option.map_some, reduceCtorEq, false_or]
      cases AnyReceive.localStatus mpiAnyTag p.toRequest m with
      | none => exact iff_of_false nofun nofun
      | some st =>
          simp only [Result.returned.injEq]

/-- What the library has received is due. -/
theorem Due.of_received (hlive : Live pk mpiAnyTag p) {m : LocalSend α} (hm : p.req = .received m)
    (hsend : p.isSend = false) (hopen : p.completed = false) {buf : List α} {st : Status} :
    Due pk p mb buf st ↔
      buf = p.buf ∧ st = (delivered m.elements p.buf m.sender m.tag p.type).2 := by
  have hbuf := (hlive.received m hm).2 hopen
  constructor
  · intro h
    cases h with
    | send hs =>
        rw [hsend] at hs
        cases hs
    | library _ hm' =>
        rw [hm] at hm'
        cases hm'
        exact ⟨hbuf.symm, rfl⟩
    | message _ _ hfree =>
        rcases hfree with hdone | hnone
        · rw [hopen] at hdone
          cases hdone
        · exact absurd hm (hnone m)
  · rintro ⟨rfl, rfl⟩
    have h := @Due.library α pk p mb m hopen hm
    rwa [show (delivered m.elements p.buf m.sender m.tag p.type).1 = p.buf from hbuf.symm] at h

/-- **The library has received a message** for the request. -/
theorem probesProperly_received (hlive : Live pk mpiAnyTag p) {m : LocalSend α}
    (hm : p.req = .received m) (hsend : p.isSend = false) (hopen : p.completed = false)
    (hprobe : probe pk mpiAnyTag false ⟨p, mb, flag, status⟩ =
      (translate mpiAnyTag p status).map fun status =>
        { request := { p with req := .null }, mailbox := mb, flag := 1, status := status }) :
    ProbesProperly pk mpiAnyTag p mb flag status ↔ TestCondition pk p mb flag status := by
  have hdone : HasCompleted p mb := .library (Or.inr ⟨m, hm⟩)
  have hcondition : TestCondition pk p mb flag status ↔
      (status = none ∨ (p.c.getLocalRank m.sender).bind p.c.getGlobalRank = some m.sender) := by
    constructor
    · exact fun h => h.sender hopen m hm
    · intro h
      refine ⟨fun _ _ _ hnot => absurd hdone hnot, fun hunpacked => ?_,
        fun _ _ _ hnone => absurd hm (hnone m), fun _ m' hm' => ?_⟩
      · have hcompleted := hlive.unpacked hunpacked
        rw [hopen] at hcompleted
        cases hcompleted
      · rw [hm] at hm'
        cases hm'
        exact h
  rw [hcondition, ← translate_received_iff hlive hm, ProbesProperly, hprobe]
  constructor
  · intro ⟨x, hx, hcase⟩
    cases htranslate : translate mpiAnyTag p status with
    | returned st =>
        rw [htranslate] at hx
        cases hx
        rcases hcase with ⟨_, _, buf, st', hdue, _, hst⟩ | ⟨hzero, _⟩
        · obtain ⟨_, rfl⟩ := (Due.of_received hlive hm hsend hopen).mp hdue
          exact congrArg Result.returned hst
        · cases hzero
    | waiting st =>
        rw [htranslate] at hx
        cases hx
    | crashed =>
        rw [htranslate] at hx
        cases hx
    | undefined =>
        rw [htranslate] at hx
        cases hx
  · intro h
    rw [h]
    exact ⟨_, rfl, Or.inl ⟨rfl, hdone, _, _,
      (Due.of_received hlive hm hsend hopen).mpr ⟨rfl, rfl⟩, rfl, rfl⟩⟩

/-- A local request that goes on in the library. -/
theorem not_hasCompleted_local (hlive : Live pk mpiAnyTag p) (hlocal : p.isLocal = true)
    (hreq : p.req = .active) : ¬ HasCompleted p mb := by
  intro h
  cases h with
  | library h => simp [hreq] at h
  | wideSend h =>
      rw [hlocal] at h
      cases h
  | found h =>
      rw [(hlive.ofLocal hlocal).1] at h
      cases h
  | offered h =>
      rw [hlocal] at h
      cases h

/-- Local requests. -/
theorem probesProperly_local (hlive : Live pk mpiAnyTag p) (hlocal : p.isLocal = true) :
    ProbesProperly pk mpiAnyTag p mb flag status ↔ TestCondition pk p mb flag status := by
  obtain ⟨hopen, hnull⟩ := hlive.ofLocal hlocal
  have hprobe : probe pk mpiAnyTag false ⟨p, mb, flag, status⟩ =
      probeLocal mpiAnyTag false ⟨p, mb, flag, status⟩ := if_pos hlocal
  have hother : ∀ {P : Prop}, p.isLocal = false → P := by
    intro P hfalse
    rw [hlocal] at hfalse
    cases hfalse
  have hunpacked : ∀ {P : Prop}, p.unpacked = true → P := by
    intro P hunpacked
    have hcompleted := hlive.unpacked hunpacked
    rw [hopen] at hcompleted
    cases hcompleted
  -- without a message there is nothing that may go wrong
  have hcondition : (∀ m, p.req ≠ .received m) → TestCondition pk p mb flag status := fun hnone =>
    ⟨fun h => hother h, fun h => hunpacked h, fun h => hother h,
      fun _ m hm => absurd hm (hnone m)⟩
  cases hreq : p.req with
  | null => exact absurd hreq hnull
  | active =>
      refine iff_of_true ⟨{ request := p, mailbox := mb, flag := 0, status := status }, ?_,
        Or.inr ⟨rfl, ?_, rfl⟩⟩ (hcondition (by simp [hreq]))
      · rw [hprobe, probeLocal]
        simp only [hreq]
        rfl
      · exact not_hasCompleted_local hlive hlocal hreq
  | sent =>
      have hsend : p.isSend = true := by
        by_contra hsend
        exact hlive.ofReceive (by simpa using hsend) hreq
      refine iff_of_true ⟨{
        request := { p with req := .null }, mailbox := mb, flag := 1
        status := status.map fun _ => p.sendStatus }, ?_,
        Or.inl ⟨rfl, .library (Or.inl hreq), p.buf, p.sendStatus, .send hsend, rfl, rfl⟩⟩
        (hcondition (by simp [hreq]))
      rw [hprobe, probeLocal]
      simp only [hreq, hsend, if_true]
  | received m =>
      have hsend : p.isSend = false := by
        by_contra hsend
        exact (hlive.ofSend (by simpa using hsend)).2 m hreq
      refine probesProperly_received hlive hreq hsend hopen ?_
      rw [hprobe, probeLocal]
      simp only [hreq, hsend, Bool.false_eq_true, if_false]

/-- Sends to other clusters. -/
theorem probesProperly_wideSend (hlive : Live pk mpiAnyTag p) (hlocal : p.isLocal = false)
    (hsend : p.isSend = true) :
    ProbesProperly pk mpiAnyTag p mb flag status ↔ TestCondition pk p mb flag status := by
  have hprobe : probe pk mpiAnyTag false ⟨p, mb, flag, status⟩ =
      .returned (probeSend ⟨p, mb, flag, status⟩) := by
    rw [probe, if_neg (by simp [hlocal]), if_pos hsend]
  have hother : ∀ {P : Prop}, p.isSend = false → P := by
    intro P hfalse
    rw [hsend] at hfalse
    cases hfalse
  refine iff_of_true ⟨_, hprobe, Or.inl ⟨rfl, .wideSend hlocal hsend, p.buf, p.sendStatus,
    .send hsend, rfl, rfl⟩⟩ ⟨fun _ h => hother h, fun hunpacked => ?_, fun _ h => hother h,
      fun _ m hm => absurd hm ((hlive.ofSend hsend).2 m)⟩
  have hcompleted := hlive.unpacked hunpacked
  rw [(hlive.ofSend hsend).1] at hcompleted
  cases hcompleted

/-- A message that `EMPI_Request_get_status` has unpacked. -/
theorem probesProperly_unpacked (hlive : Live pk mpiAnyTag p) (hlocal : p.isLocal = false)
    (hsend : p.isSend = false) (hunpacked : p.unpacked = true)
    (hprobe : probe pk mpiAnyTag false ⟨p, mb, flag, status⟩ = .returned ⟨p, mb, 1, status⟩) :
    ProbesProperly pk mpiAnyTag p mb flag status ↔ TestCondition pk p mb flag status := by
  have hcompleted := hlive.unpacked hunpacked
  have hincoming : p.incoming mb = p.message := if_pos hcompleted
  rw [ProbesProperly, hprobe]
  constructor
  · intro ⟨x, hx, hcase⟩
    cases hx
    refine ⟨fun _ _ _ hnot => absurd (.found hcompleted) hnot, fun _ => ?_,
      fun _ _ hnot => ?_, fun hopen => ?_⟩
    · rcases hcase with ⟨_, _, buf, st, hdue, hbuf, hst⟩ | ⟨hzero, _⟩
      · cases hdue with
        | send hs =>
            rw [hsend] at hs
            cases hs
        | library hopen _ =>
            rw [hcompleted] at hopen
            cases hopen
        | @message a xs rank _ _ _ ha hsent hroom =>
            refine ⟨a, xs, rank, hincoming ▸ ha, hsent, hroom, hbuf, fun st hst' => ?_⟩
            subst hst'
            exact Option.some.inj hst
      · cases hzero
    · rw [hunpacked] at hnot
      cases hnot
    · rw [hcompleted] at hopen
      cases hopen
  · intro h
    obtain ⟨a, xs, rank, ha, hsent, hroom, hbuf, hst⟩ := h.unpacked hunpacked
    refine ⟨_, rfl, Or.inl ⟨rfl, .found hcompleted, _, _, .message hlocal hsend (Or.inl hcompleted)
      (hincoming.trans ha) hsent hroom, hbuf, ?_⟩⟩
    cases status with
    | none => rfl
    | some st => exact congrArg some (hst st rfl)

/-- A message that is to be unpacked. -/
theorem probesProperly_found (hpk : pk.Lawful) (hlocal : p.isLocal = false)
    (hsend : p.isSend = false) (hunpacked : p.unpacked = false)
    (hfree : ∀ m, p.req ≠ .received m) (hdone : HasCompleted p mb) {x : Probing α} {a : Arrival}
    (hincoming : p.incoming mb = some a) (hsent : ∃ xs rank, Sent pk a xs rank)
    (hcompleted : x.request.completed = true) (hopen : x.request.unpacked = false)
    (hmessage : x.request.message = some a)
    (hasks : AnyReceive.Asks p.toRequest x.request.toRequest) (hbuf : x.request.buf = p.buf)
    (hflag : x.flag = 1) (hstatus : x.status = status)
    (hprobe : probe pk mpiAnyTag false ⟨p, mb, flag, status⟩ = finalize pk x) :
    ProbesProperly pk mpiAnyTag p mb flag status ↔ TestCondition pk p mb flag status := by
  have hcondition : TestCondition pk p mb flag status ↔ a.message.count = p.count := by
    constructor
    · exact fun h => h.count hlocal hsend hunpacked hfree hdone a hincoming
    · intro h
      refine ⟨fun _ _ _ hnot => absurd hdone hnot, fun hu => ?_, fun _ _ _ _ _ a' ha' => ?_,
        fun _ m hm => absurd hm (hfree m)⟩
      · rw [hunpacked] at hu
        cases hu
      · rw [hincoming] at ha'
        cases ha'
        exact h
  rw [hcondition, ProbesProperly, hprobe]
  constructor
  · intro ⟨x', hx', hcase⟩
    rcases hcase with ⟨_, _, buf, st, hdue, _, _⟩ | ⟨_, hnot, _⟩
    · cases hdue with
      | send hs =>
          rw [hsend] at hs
          cases hs
      | library _ hm => exact absurd hm (hfree _)
      | message _ _ _ ha hsent' hroom =>
          rw [hincoming] at ha
          cases ha
          exact (count_of_finalize hpk hopen hmessage hsent' (hasks.count ▸ hroom) hx').trans
            hasks.count
    · exact absurd hdone hnot
  · intro h
    obtain ⟨xs, rank, hsent⟩ := hsent
    obtain ⟨x', hx', hflag', hbuf', hst'⟩ := finalize_of_count hpk hcompleted hopen hmessage hsent
      (h.trans hasks.count.symm)
    have hroom : xs.length ≤ p.count := ((header_of_sent hsent).1.symm.trans h).le
    refine ⟨x', hx', Or.inl ⟨hflag'.trans hflag, hdone, _, _,
      .message hlocal hsend (Or.inr hfree) hincoming hsent hroom, ?_, ?_⟩⟩
    · rw [hbuf', hbuf, hasks.type]
    · rw [hst', hstatus, hbuf, hasks.type]

/-- A request that goes on. -/
theorem probesProperly_open (hlive : Live pk mpiAnyTag p) (hnot : ¬ HasCompleted p mb)
    {mb' : Mailbox} {flag' : Int}
    (hflag : flag' = 0 ↔ (p.isLocal = false → p.isSend = false → p.source ≠ empiAnySource →
      flag = 0))
    (hprobe : probe pk mpiAnyTag false ⟨p, mb, flag, status⟩ =
      .returned ⟨p, mb', flag', status⟩) :
    ProbesProperly pk mpiAnyTag p mb flag status ↔ TestCondition pk p mb flag status := by
  rw [ProbesProperly, hprobe]
  constructor
  · intro ⟨x, hx, hcase⟩
    cases hx
    rcases hcase with ⟨_, hdone, _⟩ | ⟨hzero, _, _⟩
    · exact absurd hdone hnot
    · refine ⟨fun hl hs hsource _ => hflag.mp hzero hl hs hsource, fun hu => ?_,
        fun _ _ _ _ hdone => absurd hdone hnot, fun _ m hm => ?_⟩
      · exact absurd (.found (hlive.unpacked hu)) hnot
      · exact absurd (.library (Or.inr ⟨m, hm⟩)) hnot
  · intro h
    exact ⟨_, rfl, Or.inr ⟨hflag.mpr fun hl hs hsource => h.flag hl hs hsource hnot, hnot, rfl⟩⟩

/-- The message that a search finds is the one for the request. -/
theorem incoming_of_poll (hopen : p.completed = false) {a : Arrival} {mb' : Mailbox}
    (hfound : mb.poll p.pattern false = .found a mb') : p.incoming mb = some a := by
  rw [Posted.incoming, if_neg (by simp [hopen]), (Mailbox.poll_found hfound).1]
  rfl

/-- A receive for another cluster that has not completed. -/
theorem not_hasCompleted (hsend : p.isSend = false) (hopen : p.completed = false) (hreq : p.req = .null ∨ p.req = .active)
    (hoffers : ¬ mb.Offers p.pattern false) : ¬ HasCompleted p mb := by
  intro h
  cases h with
  | library h => rcases hreq with hreq | hreq <;> simp [hreq] at h
  | wideSend _ hs =>
      rw [hsend] at hs
      cases hs
  | found hcompleted =>
      rw [hopen] at hcompleted
      cases hcompleted
  | offered _ _ h => exact hoffers h

/-- Receives from another cluster. -/
theorem probesProperly_named (hpk : pk.Lawful) (hlive : Live pk mpiAnyTag p)
    (hmb : AllSent pk mb) (hnext : NextKnown mb) (hlocal : p.isLocal = false)
    (hsend : p.isSend = false) (hsource : p.source ≠ empiAnySource) :
    ProbesProperly pk mpiAnyTag p mb flag status ↔ TestCondition pk p mb flag status := by
  have hnull := hlive.named hlocal hsend hsource
  have hfree : ∀ m, p.req ≠ .received m := fun m hm => by simp [hnull] at hm
  have hprobe : probe pk mpiAnyTag false ⟨p, mb, flag, status⟩ =
      probeReceive pk false ⟨p, mb, flag, status⟩ := by
    rw [probe, if_neg (by simp [hlocal]), if_neg (by simp [hsend]), if_pos hsource]
  rw [probeReceive] at hprobe
  cases hcompleted : p.completed with
  | true =>
      simp only [messagingProbeReceive, hcompleted, if_true] at hprobe
      obtain ⟨a, xs, rank, ha, _, hsent⟩ := hlive.message hcompleted
      cases hunpacked : p.unpacked with
      | true =>
          refine probesProperly_unpacked hlive hlocal hsend hunpacked (hprobe.trans ?_)
          have hfinal : messagingFinalizeReceive pk p.toRequest = some (p.toRequest, none) := by
            rw [messagingFinalizeReceive, if_neg (by simp [hcompleted]), if_pos hunpacked]
          simp only [finalize, hfinal]
          cases status <;> rfl
      | false =>
          exact probesProperly_found hpk hlocal hsend hunpacked hfree (.found hcompleted)
            ((if_pos hcompleted).trans ha) ⟨xs, rank, hsent⟩ hcompleted hunpacked ha
            ⟨rfl, rfl, rfl, rfl, rfl⟩ rfl rfl rfl hprobe
  | false =>
      have hunpacked : p.unpacked = false := by
        by_contra hunpacked
        have hdone := hlive.unpacked (by simpa using hunpacked)
        rw [hcompleted] at hdone
        cases hdone
      rcases poll_cases hnext p.pattern with ⟨a, mb', hpoll, hoffers⟩ | ⟨mb', hpoll, hoffers⟩
      · simp only [messagingProbeReceive, hcompleted, Bool.false_eq_true, if_false, hpoll,
          if_true] at hprobe
        have hsent := (sent_of_poll hmb hpoll).1
        exact probesProperly_found hpk hlocal hsend hunpacked hfree
          (.offered hlocal hsend hoffers) (incoming_of_poll hcompleted hpoll) hsent rfl hunpacked rfl
          ⟨rfl, rfl, rfl, rfl, rfl⟩ rfl rfl rfl hprobe
      · simp only [messagingProbeReceive, hcompleted, Bool.false_eq_true, if_false,
          hpoll] at hprobe
        exact probesProperly_open hlive
          (not_hasCompleted hsend hcompleted (Or.inl hnull) hoffers)
          ⟨fun h _ _ _ => h, fun h => h hlocal hsend hsource⟩ hprobe

/-- Receives from any source in a communicator with several clusters. -/
theorem probesProperly_any (hpk : pk.Lawful) (hlive : Live pk mpiAnyTag p)
    (hmb : AllSent pk mb) (hnext : NextKnown mb) (hlocal : p.isLocal = false)
    (hsend : p.isSend = false) (hsource : p.source = empiAnySource) :
    ProbesProperly pk mpiAnyTag p mb flag status ↔ TestCondition pk p mb flag status := by
  obtain ⟨hnull, hany⟩ := hlive.any hlocal hsend hsource
  have hprobe : probe pk mpiAnyTag false ⟨p, mb, flag, status⟩ =
      probeAny pk mpiAnyTag false ⟨p, mb, flag, status⟩ := by
    rw [probe, if_neg (by simp [hlocal]), if_neg (by simp [hsend]), if_neg (not_not.mpr hsource)]
  rw [probeAny] at hprobe
  cases hcompleted : p.completed with
  | true =>
      simp only [hcompleted, if_true] at hprobe
      exact probesProperly_unpacked hlive hlocal hsend (hany hcompleted) hprobe
  | false =>
      have hunpacked : p.unpacked = false := by
        by_contra hunpacked
        have hdone := hlive.unpacked (by simpa using hunpacked)
        rw [hcompleted] at hdone
        cases hdone
      simp only [hcompleted, Bool.false_eq_true, if_false] at hprobe
      cases hreq : p.req with
      | null => exact absurd hreq hnull
      | sent => exact absurd hreq (hlive.ofReceive hsend)
      | received m =>
          simp only [hreq] at hprobe
          exact probesProperly_received hlive hreq hsend hcompleted hprobe
      | active =>
          have hfree : ∀ m, p.req ≠ .received m := fun m hm => by simp [hreq] at hm
          simp only [hreq] at hprobe
          rcases poll_cases hnext p.pattern with ⟨a, mb', hpoll, hoffers⟩ | ⟨mb', hpoll, hoffers⟩
          · simp only [messagingProbeReceive, hcompleted, Bool.false_eq_true, if_false, hpoll,
              if_true] at hprobe
            have hsent := (sent_of_poll hmb hpoll).1
            exact probesProperly_found hpk hlocal hsend hunpacked hfree
              (.offered hlocal hsend hoffers) (incoming_of_poll hcompleted hpoll) hsent rfl
              hunpacked rfl ⟨rfl, rfl, rfl, rfl, rfl⟩ rfl rfl rfl hprobe
          · simp only [messagingProbeReceive, hcompleted, Bool.false_eq_true, if_false,
              hpoll] at hprobe
            rw [← hreq] at hprobe
            exact probesProperly_open hlive
              (not_hasCompleted hsend hcompleted (Or.inr hreq) hoffers)
              ⟨fun _ _ _ hne => absurd hsource hne, fun _ => rfl⟩ hprobe

end Branches

/-- **`EMPI_Test`.**  In every state of every run, for every request that is there and every
value that the flag has before: the test frees the request and delivers what is due if the
operation has completed, and otherwise sets the flag to 0 and leaves the request as it is, if
and only if `TestCondition` holds.  The next message from MPI must be for a communicator that
the process has. -/
theorem testsProperly_iff {pk : Packing α} (hpk : pk.Lawful) {mpiAnyTag : Int} {s : Client α}
    (h : Reachable pk mpiAnyTag s) {args : Arguments} {p : Posted α}
    (hp : s.handleToRequest args.req = some p) (hnext : NextKnown s.mailbox) :
    TestsProperly pk mpiAnyTag s args p ↔
      TestCondition pk p s.mailbox args.flag args.status := by
  have hinv := inv_of_reachable h
  have hlive := hinv.live _ p (handleToRequest_eq_some hp)
  rw [testsProperly_iff_probes hp]
  cases hlocal : p.isLocal with
  | true => exact probesProperly_local hlive hlocal
  | false =>
      cases hsend : p.isSend with
      | true => exact probesProperly_wideSend hlive hlocal hsend
      | false =>
          by_cases hsource : p.source = empiAnySource
          · exact probesProperly_any hpk hlive hinv.mailbox hnext hlocal hsend hsource
          · exact probesProperly_named hpk hlive hinv.mailbox hnext hlocal hsend hsource

/-- The first request of a process. -/
theorem addRequest_zero {s : Client α} (h : s.reqs 0 = none) (p : Posted α) :
    s.addRequest p = some (s.put 0 p) := by
  rw [Client.addRequest, maxRequests, List.range_succ_eq_map, List.find?_cons, h]
  rfl

/-- A receive of one element from rank 2, in another cluster. -/
def namedRequest : Posted UInt8 := irecvRequest false [0] 1 0 2 5 AnyReceive.mixedWorld

/-- Rank 0 after `EMPI_Irecv`, before anything has come. -/
def waiting : Client UInt8 := (Client.start fun comm => comm = 0).put 0 namedRequest

theorem reachable_waiting : Reachable bytePacking (-2) waiting := by
  refine ⟨fun comm => comm = 0, .single (.irecv false [0] 1 0 2 5 AnyReceive.mixedWorld ?_)⟩
  have hprobe : messagingProbeReceive namedRequest.toRequest false
      (Client.start (α := UInt8) fun comm => comm = 0).mailbox =
        .done namedRequest.toRequest (Client.start (α := UInt8) fun comm => comm = 0).mailbox := rfl
  have hadd := @addRequest_zero UInt8 (Client.start fun comm => comm = 0) rfl namedRequest
  show empiIrecv (Client.start fun comm => comm = 0) namedRequest = .returned waiting
  rw [empiIrecv, if_neg (by decide), hprobe]
  simp only
  rw [hadd]
  rfl

/-- The message has come. -/
def arrived : Client UInt8 :=
  { waiting with mailbox := waiting.mailbox.arrive AnyReceive.remoteSeven }

theorem reachable_arrived : Reachable bytePacking (-2) arrived := by
  obtain ⟨known, hrun⟩ := reachable_waiting
  have hsent : Sent bytePacking AnyReceive.remoteSeven [7] 2 :=
    ⟨setPid 1 0, opcodeData, 0, worldCommunicator [2, 1] 1 0, by decide, by decide⟩
  exact ⟨known, hrun.tail (.arrive AnyReceive.remoteSeven hsent)⟩

theorem testsProperly_arrived :
    TestsProperly bytePacking (-2) arrived ⟨0, 1, some clearStatus⟩ namedRequest := by
  have hincoming : namedRequest.incoming arrived.mailbox = some AnyReceive.remoteSeven := rfl
  have hoffers : arrived.mailbox.Offers namedRequest.pattern false :=
    Or.inr ⟨AnyReceive.remoteSeven, List.mem_cons_self, by decide⟩
  refine (testsProperly_iff bytePacking_lawful reachable_arrived rfl ?_).mpr
    ⟨fun _ _ _ hnot => absurd (.offered rfl rfl hoffers) hnot, nofun, fun _ _ _ _ _ a ha => ?_,
      fun _ m hm => nomatch hm⟩
  · intro a ha
    cases ha
    rfl
  · rw [hincoming] at ha
    cases ha
    rfl

/-- The flag is 1 before the test, and nothing has come: the request is freed. -/
theorem not_testsProperly_waiting :
    Reachable bytePacking (-2) waiting ∧ waiting.handleToRequest 0 = some namedRequest ∧
      (∃ r, empiTest bytePacking (-2) waiting ⟨0, 1, none⟩ = .returned r ∧
        r.arguments.flag = 1 ∧ r.arguments.req = requestNull ∧ r.client.reqs 0 = none) ∧
      ¬ TestsProperly bytePacking (-2) waiting ⟨0, 1, none⟩ namedRequest := by
  refine ⟨reachable_waiting, rfl, ⟨_, rfl, rfl, rfl, rfl⟩, ?_⟩
  intro ⟨r, hr, _, hcase⟩
  cases hr
  rcases hcase with ⟨_, hdone, _⟩ | ⟨hzero, _⟩
  · refine not_hasCompleted rfl rfl (Or.inl rfl) ?_ hdone
    rintro (⟨a, ha, _⟩ | ⟨a, ha, _⟩) <;> cases ha
  · cases hzero

end Requests

end EsalsaMpi
