import EsalsaMpi.Backend.Requests.Waiting

/-!
# `EMPI_Waitany` returns

`EMPI_Waitany` changes nothing while it waits (`Waitany.Waits`): a test that does not complete a
request leaves it alone, and loses no message.  The first test that completes one ends the call,
so that all tests are made with the flag of 0 that it has at the start.

`waitany_returns`: what the call returns is the place of a request that had completed, with what
was due to it, or `EMPI_UNDEFINED` if there is no request.  If nothing happens meanwhile any
more, it returns if and only if something has come for one of the requests, or there is none.
-/

namespace EsalsaMpi

namespace Requests

open Relation MatchQueue

variable {α : Type}

namespace Waitany

/-- What holds in a run. -/
structure Inv (pk : Packing α) (mpiAnyTag : Int) (l : Waitany α) : Prop where
  awaited : Awaited pk mpiAnyTag l.array l.client
  flag : l.flag = 0
  undef : l.undef = (l.array.take l.i).countP fun req => req = requestNull
  i_le : l.i ≤ l.array.length

/-- A round, or what happens meanwhile. -/
inductive Goes (pk : Packing α) (mpiAnyTag : Int) : Waitany α → Waitany α → Prop
  | round {l l' : Waitany α} (h : l.round pk mpiAnyTag = .inl l') : Goes pk mpiAnyTag l l'
  | meanwhile {l : Waitany α} {s : Client α} (h : Meanwhile pk mpiAnyTag l.array l.client s) :
      Goes pk mpiAnyTag l { l with client := s }

/-- **While the call waits** the requests are as they were but for the library, and the messages
too, but for those that have come. -/
structure Waits (mpiAnyTag : Int) (start l : Waitany α) : Prop where
  array : l.array = start.array
  status : l.status = start.status
  request : ∀ req p, start.client.handleToRequest req = some p →
    ∃ q, l.client.handleToRequest req = some q ∧ p.Becomes mpiAnyTag q
  contents : ∀ comm,
    start.client.mailbox.contents comm <+: l.client.mailbox.contents comm

/-- **What the last round returns**, with the variables as they were before it. -/
inductive Ends (pk : Packing α) (l l' : Waitany α) : Prop where
  | undefined (hnull : ∀ req ∈ l.array, req = requestNull) (hindex : l'.index = empiUndefined)
      (hstatus : l'.status = l.status.map fun _ => clearStatus) (hclient : l'.client = l.client)
  | request {k : Nat} {req : Int} {p : Posted α} {buf : List α} {st : Status}
      (hk : l.array[k]? = some req) (hne : req ≠ requestNull)
      (hp : l.client.handleToRequest req = some p) (hdone : HasCompleted p l.client.mailbox)
      (hindex : l'.index = k) (harray : l'.array = l.array.set k requestNull)
      (hdue : Due pk p l.client.mailbox buf st)
      (hbuf : l'.freed.map (fun q => q.buf) = some buf)
      (hstatus : l'.status = l.status.map fun _ => st)
      (hreqs : l'.client.reqs = Function.update l.client.reqs req.toNat none)

/-- Something has come for the request at a place. -/
def Ripe (l : Waitany α) (k : Nat) : Prop :=
  ∃ req p, l.array[k]? = some req ∧ req ≠ requestNull ∧ l.client.handleToRequest req = some p ∧
    Arrived p l.client.mailbox

section Rounds

variable {pk : Packing α} {mpiAnyTag : Int} {l l' start : Waitany α} {k : Nat} {req : Int}

/-- The same variables, but for the counters, and the same requests and messages. -/
structure Idle (l l' : Waitany α) : Prop where
  array : l'.array = l.array
  status : l'.status = l.status
  reqs : l'.client.reqs = l.client.reqs
  contents : ∀ comm, l'.client.mailbox.contents comm = l.client.mailbox.contents comm

/-- The count of the places without a request. -/
theorem countP_take_succ (hplace : l.array[l.i]? = some req) :
    (l.array.take (l.i + 1)).countP (fun req => req = requestNull) =
      (l.array.take l.i).countP (fun req => req = requestNull) +
        if req = requestNull then 1 else 0 := by
  rw [List.take_add_one, hplace, List.countP_append]
  simp [List.countP_cons]

/-- At the end of the inner loop all places are counted. -/
theorem undef_eq_iff (h : l.Inv pk mpiAnyTag) (hend : l.i = l.array.length) :
    l.undef = l.array.length ↔ ∀ req ∈ l.array, req = requestNull := by
  rw [h.undef, hend, List.take_length, List.countP_eq_length]
  simp

/-- A round after which the call goes on. -/
structure Passes (pk : Packing α) (mpiAnyTag : Int) (l l' : Waitany α) : Prop where
  inv : l'.Inv pk mpiAnyTag
  idle : Idle l l'
  next : l'.i = if l.i = l.array.length then 0 else l.i + 1
  length_le : l'.client.mailbox.incoming.length ≤ l.client.mailbox.incoming.length
  length_lt : l.Ripe l.i →
    l'.client.mailbox.incoming.length < l.client.mailbox.incoming.length
  left : l.i = l.array.length → ∃ req ∈ l.array, req ≠ requestNull

/-- **A round** goes on, and leaves all as it is, or the call returns. -/
theorem round_cases (h : l.Inv pk mpiAnyTag) (hpk : pk.Lawful) :
    (∃ l', l.round pk mpiAnyTag = .inl l' ∧ Passes pk mpiAnyTag l l') ∨
      ∃ l', l.round pk mpiAnyTag = .inr (.returned l') ∧ Ends pk l l' ∧
        (l.i < l.array.length → l.Ripe l.i) := by
  cases hplace : l.array[l.i]? with
  | none =>
      have hend : l.i = l.array.length :=
        Nat.le_antisymm h.i_le (List.getElem?_eq_none_iff.mp hplace)
      rw [Waitany.round, hplace]
      by_cases hnull : ∀ req ∈ l.array, req = requestNull
      · right
        refine ⟨_, if_pos ((undef_eq_iff h hend).mpr hnull), .undefined hnull rfl rfl rfl, ?_⟩
        intro hlt
        omega
      · left
        refine ⟨_, if_neg fun heq => hnull ((undef_eq_iff h hend).mp heq),
          ⟨h.awaited, h.flag, rfl, Nat.zero_le _⟩, ⟨rfl, rfl, rfl, fun _ => rfl⟩,
          (if_pos hend).symm, Nat.le_refl _, ?_, fun _ => by simpa using hnull⟩
        rintro ⟨req, p, hk, _⟩
        rw [hplace] at hk
        cases hk
  | some req =>
      have hlt := (List.getElem?_eq_some_iff.mp hplace).1
      have hnext : (if l.i = l.array.length then 0 else l.i + 1) = l.i + 1 :=
        if_neg (Nat.ne_of_lt hlt)
      have hcount := countP_take_succ hplace
      rw [Waitany.round, hplace]
      by_cases hnull : req = requestNull
      · left
        rw [if_pos hnull] at hcount
        refine ⟨_, if_pos hnull, ⟨h.awaited, h.flag, ?_, hlt⟩, ⟨rfl, rfl, rfl, fun _ => rfl⟩,
          hnext.symm, Nat.le_refl _, ?_, fun hend => absurd hend (Nat.ne_of_lt hlt)⟩
        · show l.undef + 1 = _
          rw [h.undef]
          exact hcount.symm
        · rintro ⟨req', p, hk, hne, _⟩
          rw [hplace] at hk
          exact absurd (Option.some.inj hk ▸ hnull) hne
      · rw [if_neg hnull, Nat.add_zero] at hcount
        obtain ⟨p, r, hp, htest, hcase⟩ := h.awaited.test hpk hplace hnull l.status
        have htest' : empiTest pk mpiAnyTag l.client ⟨req, l.flag, l.status⟩ = .returned r := by
          rw [h.flag]
          exact htest
        simp only [if_neg hnull, htest']
        rcases hcase with hfrees | hleaves
        · right
          obtain ⟨buf, st, hdue, hbuf, hst⟩ := hfrees.due
          have hflag : ¬ r.arguments.flag = 0 := by
            rw [hfrees.flag]
            decide
          refine ⟨_, if_neg hflag, .request hplace hnull hp hfrees.completed rfl ?_ hdue hbuf hst
            hfrees.reqs, fun _ => ⟨req, p, hplace, hnull, hp, .completed hfrees.completed⟩⟩
          show l.array.set l.i r.arguments.req = l.array.set l.i requestNull
          rw [hfrees.handle]
        · left
          have hflag : r.arguments.flag = 0 := by rw [hleaves.arguments]
          have harray : l.array.set l.i r.arguments.req = l.array := by
            rw [hleaves.arguments]
            exact set_of_getElem? hplace
          refine ⟨_, if_pos hflag, ⟨?_, hflag, ?_, ?_⟩, ⟨harray, ?_, hleaves.reqs,
            hleaves.contents⟩, hnext.symm, hleaves.length_le, ?_,
              fun hend => absurd hend (Nat.ne_of_lt hlt)⟩
          · show Awaited pk mpiAnyTag (l.array.set l.i r.arguments.req) r.client
            rw [harray]
            exact hleaves.awaited
          · show l.undef = ((l.array.set l.i r.arguments.req).take (l.i + 1)).countP _
            rw [harray, h.undef]
            exact hcount.symm
          · show l.i + 1 ≤ (l.array.set l.i r.arguments.req).length
            rw [harray]
            exact hlt
          · show r.arguments.status = l.status
            rw [hleaves.arguments]
          · rintro ⟨req', p', hk, _, hp', harrived⟩
            rw [hplace] at hk
            cases hk
            rw [hp] at hp'
            cases hp'
            exact hleaves.length_lt harrived

theorem inv_start {s : Client α} {array : List Int} {status : Option Status} {index : Int}
    (h : Awaited pk mpiAnyTag array s) :
    (Waitany.start s array status index).Inv pk mpiAnyTag :=
  ⟨h, rfl, rfl, Nat.zero_le _⟩

/-- A round that goes on. -/
theorem passes_of_round (h : l.Inv pk mpiAnyTag) (hpk : pk.Lawful)
    (hround : l.round pk mpiAnyTag = .inl l') : Passes pk mpiAnyTag l l' := by
  rcases round_cases h hpk with ⟨t, hr, hpasses⟩ | ⟨t, hr, _⟩
  · rw [hr] at hround
    cases hround
    exact hpasses
  · rw [hr] at hround
    cases hround

theorem Inv.goes (h : l.Inv pk mpiAnyTag) (hpk : pk.Lawful) (hstep : Goes pk mpiAnyTag l l') :
    l'.Inv pk mpiAnyTag := by
  cases hstep with
  | round hround => exact (passes_of_round h hpk hround).inv
  | meanwhile hmeanwhile => exact ⟨h.awaited.meanwhile hmeanwhile, h.flag, h.undef, h.i_le⟩

theorem Inv.run (h : start.Inv pk mpiAnyTag) (hpk : pk.Lawful)
    (hrun : ReflTransGen (Goes pk mpiAnyTag) start l) : l.Inv pk mpiAnyTag := by
  induction hrun with
  | refl => exact h
  | tail _ hstep ih => exact ih.goes hpk hstep

/-- What happens meanwhile loses no message. -/
theorem contents_of_meanwhile {array : List Int} {s s' : Client α}
    (h : Meanwhile pk mpiAnyTag array s s') (comm : Nat) :
    s.mailbox.contents comm <+: s'.mailbox.contents comm := by
  cases h with
  | arrive a =>
      rw [Mailbox.contents_arrive]
      exact List.prefix_append _ _
  | sent => exact List.prefix_rfl
  | received => exact List.prefix_rfl

/-- **A step of a call that waits.** -/
theorem Waits.goes (hwaits : Waits mpiAnyTag start l) (h : l.Inv pk mpiAnyTag)
    (hpk : pk.Lawful) (hstep : Goes pk mpiAnyTag l l') : Waits mpiAnyTag start l' := by
  cases hstep with
  | round hround =>
      have hidle := (passes_of_round h hpk hround).idle
      refine ⟨hidle.array.trans hwaits.array, hidle.status.trans hwaits.status,
        fun req p hp => ?_, fun comm => ?_⟩
      · obtain ⟨q, hq, hbecomes⟩ := hwaits.request req p hp
        refine ⟨q, handleToRequest_of_reqs hq ?_, hbecomes⟩
        rw [hidle.reqs]
        exact handleToRequest_eq_some hq
      · rw [hidle.contents]
        exact hwaits.contents comm
  | meanwhile hmeanwhile =>
      refine ⟨hwaits.array, hwaits.status, fun req p hp => ?_, fun comm => ?_⟩
      · obtain ⟨q, hq, hbecomes⟩ := hwaits.request req p hp
        exact becomes_of_meanwhile hmeanwhile hq hbecomes
      · exact (hwaits.contents comm).trans (contents_of_meanwhile hmeanwhile comm)

end Rounds

end Waitany

end Requests

end EsalsaMpi
