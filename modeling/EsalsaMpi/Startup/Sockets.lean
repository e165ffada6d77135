import EsalsaMpi.Library.Loops
import Mathlib.Algebra.GroupWithZero.Nat
import Mathlib.Data.Nat.Find
import Mathlib.Data.List.Basic

/-!
# Blocking sockets

`socket_connect` tries to connect until it succeeds: it gives up after 1000 attempts, but
does not count them.  `socket_sendfully` and `socket_receivefully` call `write` and `read`
until all bytes are across or a call fails.  A call that transfers nothing, as `read` does
when the peer has closed the connection, is not a failure.

What the operating system returns is a sequence of results, one for each call.  The
functions return as they should if and only if one of the first 1000 attempts to connect
succeeds, and no connection stalls before all bytes are across (`terminates_iff`).
-/

namespace EsalsaMpi

namespace Startup

/-- `CONNECT_OK`. -/
def connectOk : Nat := 0

/-- `CONNECT_ERROR_CREATE_SOCKET`. -/
def connectErrorCreateSocket : Nat := 1

/-- `CONNECT_ERROR_CONNECT`. -/
def connectErrorConnect : Nat := 2

/-- `CONNECT_ERROR_SEND_FAILED`. -/
def connectErrorSendFailed : Nat := 10

/-- `CONNECT_ERROR_RECEIVE_FAILED`. -/
def connectErrorReceiveFailed : Nat := 11

/-- The bound on `attempts` in `socket_connect`. -/
def maxAttempts : Nat := 1000

/-- Where `socket_connect` is: the value of `attempts`, and how often it has called
`connect`. -/
structure Connecting where
  attempts : Nat
  calls : Nat
deriving DecidableEq, Repr

/-- What `socket_connect` returns, after how many calls of `connect`. -/
structure Connected where
  code : Nat
  calls : Nat
deriving DecidableEq, Repr

/-- A round of the loop in `socket_connect`, where `connect` returns the given results.
`set_socket_options` does not fail. -/
def connectRound (results : Nat → Int) (s : Connecting) : Connecting ⊕ Connected :=
  if s.attempts < maxAttempts then
    if results s.calls ≠ 0 then
      .inl { s with calls := s.calls + 1 }
    else
      .inr ⟨connectOk, s.calls + 1⟩
  else
    .inr ⟨connectErrorConnect, s.calls⟩

/-- `socket_connect`, with a number of rounds for its loop. -/
def socketConnect (socketfd : Int) (results : Nat → Int) (rounds : Nat) : Option Connected :=
  if socketfd < 0 then
    some ⟨connectErrorCreateSocket, 0⟩
  else
    Loops.run (connectRound results) rounds ⟨0, 0⟩

/-- Where a transfer is: the bytes that are across, `w` or `r`, and the number of calls. -/
structure Transfer where
  bytes : Nat
  calls : Nat
deriving DecidableEq, Repr

/-- What a transfer returns. -/
structure Transferred where
  code : Nat
  bytes : Nat
  calls : Nat
deriving DecidableEq, Repr

/-- A round of the loop of `socket_sendfully` or `socket_receivefully`.  A call fails, or
it could transfer the given number of bytes; it transfers no more than it is asked for. -/
def transferRound (error len : Nat) (results : Nat → Option Nat) (s : Transfer) :
    Transfer ⊕ Transferred :=
  if s.bytes < len then
    match results s.calls with
    | none => .inr ⟨error, s.bytes, s.calls + 1⟩
    | some n => .inl ⟨s.bytes + min n (len - s.bytes), s.calls + 1⟩
  else
    .inr ⟨connectOk, s.bytes, s.calls⟩

/-- `socket_sendfully`, with a number of rounds. -/
def socketSendfully (len : Nat) (results : Nat → Option Nat) (rounds : Nat) :
    Option Transferred :=
  Loops.run (transferRound connectErrorSendFailed len results) rounds ⟨0, 0⟩

/-- `socket_receivefully`, with a number of rounds. -/
def socketReceivefully (len : Nat) (results : Nat → Option Nat) (rounds : Nat) :
    Option Transferred :=
  Loops.run (transferRound connectErrorReceiveFailed len results) rounds ⟨0, 0⟩

/-- What the operating system returns: a socket, and the results of the calls on it. -/
structure OsResults where
  socketfd : Int
  connect : Nat → Int
  write : Nat → Option Nat
  read : Nat → Option Nat

/-- **Start-up terminates**: `socket_connect` returns after 1000 attempts at most, with
`CONNECT_ERROR_CONNECT` if they have all failed, and the transfers of `len` bytes return,
with `CONNECT_OK` only when all bytes are across. -/
structure Terminates (os : OsResults) (len : Nat) : Prop where
  connect : ∃ rounds result, socketConnect os.socketfd os.connect rounds = some result ∧
    result.calls ≤ maxAttempts ∧
      (result.code = connectErrorConnect → ∀ i < maxAttempts, os.connect i ≠ 0)
  send : ∃ rounds result, socketSendfully len os.write rounds = some result ∧
    (result.code = connectOk → result.bytes = len)
  receive : ∃ rounds result, socketReceivefully len os.read rounds = some result ∧
    (result.code = connectOk → result.bytes = len)

/-! ### Connecting -/

section Connect

variable {results : Nat → Int}

/-- A failed attempt is not counted. -/
theorem connectRound_failed {k : Nat} (hk : results k ≠ 0) :
    connectRound results ⟨0, k⟩ = .inl ⟨0, k + 1⟩ := by
  rw [connectRound, if_pos (show 0 < maxAttempts by decide), if_pos hk]

theorem connectRound_connected {k : Nat} (hk : results k = 0) :
    connectRound results ⟨0, k⟩ = .inr ⟨connectOk, k + 1⟩ := by
  rw [connectRound, if_pos (show 0 < maxAttempts by decide), if_neg (not_not_intro hk)]

/-- **Attempts** are made until one succeeds. -/
theorem returns_connectRound {k : Nat} (hk : results k = 0) (hfirst : ∀ i < k, results i ≠ 0) :
    Loops.Returns (connectRound results) ⟨0, 0⟩ ⟨connectOk, k + 1⟩ := by
  have hround : ∀ i ≤ k, Loops.Returns (connectRound results) ⟨0, k - i⟩ ⟨connectOk, k + 1⟩ := by
    intro i hi
    induction i with
    | zero => exact .last (connectRound_connected hk)
    | succ i ih =>
        refine .next (connectRound_failed (hfirst _ (by omega))) ?_
        have hnext : k - (i + 1) + 1 = k - i := by omega
        rw [hnext]
        exact ih (by omega)
  have hstart := hround k (Nat.le_refl k)
  rwa [Nat.sub_self] at hstart

/-- If all attempts fail there is no end to them. -/
theorem not_stops_connectRound (hall : ∀ i, results i ≠ 0) :
    ¬ Loops.Stops (connectRound results) ⟨0, 0⟩ := by
  refine Loops.not_stops (J := fun s => s.attempts = 0) rfl ?_
  intro s hs
  obtain ⟨attempts, calls⟩ := s
  subst hs
  exact ⟨_, connectRound_failed (hall calls), rfl⟩

/-- **Connecting** ends as it should if and only if the first success is in time. -/
theorem connects_iff (socketfd : Int) (results : Nat → Int) :
    (∃ rounds result, socketConnect socketfd results rounds = some result ∧
      result.calls ≤ maxAttempts ∧
        (result.code = connectErrorConnect → ∀ i < maxAttempts, results i ≠ 0)) ↔
      socketfd < 0 ∨ ∃ i < maxAttempts, results i = 0 := by
  by_cases hsocket : socketfd < 0
  · refine iff_of_true ⟨0, ⟨connectErrorCreateSocket, 0⟩, ?_, Nat.zero_le _, ?_⟩ (Or.inl hsocket)
    · rw [socketConnect, if_pos hsocket]
    · intro hcode
      cases hcode
  · have hrun : ∀ rounds, socketConnect socketfd results rounds =
        Loops.run (connectRound results) rounds ⟨0, 0⟩ := fun rounds => if_neg hsocket
    have hfirst : ∀ k, results k = 0 → ∃ k' ≤ k, results k' = 0 ∧ ∀ i < k', results i ≠ 0 := by
      intro k hk
      have hex : ∃ k, results k = 0 := ⟨k, hk⟩
      exact ⟨Nat.find hex, Nat.find_min' hex hk, Nat.find_spec hex, fun i hi => Nat.find_min hex hi⟩
    constructor
    · rintro ⟨rounds, result, hresult, hcalls, _⟩
      right
      rw [hrun] at hresult
      by_cases hall : ∀ i, results i ≠ 0
      · exact absurd ⟨result, rounds, hresult⟩ (not_stops_connectRound hall)
      · obtain ⟨k, hk⟩ := not_forall.mp hall
        obtain ⟨k', _, hk', hbefore⟩ := hfirst k (not_not.mp hk)
        have hsame := Loops.Returns.unique ⟨rounds, hresult⟩ (returns_connectRound hk' hbefore)
        rw [hsame] at hcalls
        exact ⟨k', hcalls, hk'⟩
    · rintro (hlt | ⟨k, hk, hzero⟩)
      · exact absurd hlt hsocket
      · obtain ⟨k', hle, hk', hbefore⟩ := hfirst k hzero
        obtain ⟨rounds, hrounds⟩ := returns_connectRound hk' hbefore
        refine ⟨rounds, _, (hrun rounds).trans hrounds, ?_, ?_⟩
        · show k' + 1 ≤ maxAttempts
          omega
        · intro hcode
          cases hcode

end Connect

/-! ### Transfers -/

section Transfers

variable {error len : Nat} {results : Nat → Option Nat}

/-- The bytes that the first `k` calls could transfer. -/
def offered (results : Nat → Option Nat) (k : Nat) : Nat :=
  ((List.range k).map fun i => (results i).getD 0).sum

/-- **A transfer stalls**: no call fails, and from some call on none transfers anything,
before all bytes are across. -/
def Stalls (len : Nat) (results : Nat → Option Nat) : Prop :=
  ∃ k, (∀ i < k, results i ≠ none) ∧ (∀ i ≥ k, results i = some 0) ∧ offered results k < len

theorem offered_succ (results : Nat → Option Nat) (k : Nat) :
    offered results (k + 1) = offered results k + (results k).getD 0 := by
  rw [offered, List.range_succ, List.map_append, List.sum_append, List.map_singleton,
    List.sum_singleton, offered]

theorem offered_mono (results : Nat → Option Nat) {k k' : Nat} (h : k ≤ k') :
    offered results k ≤ offered results k' := by
  induction h with
  | refl => exact Nat.le_refl _
  | step _ ih =>
      rw [offered_succ]
      omega

/-- Where a transfer is after some calls. -/
def InTransfer (len : Nat) (results : Nat → Option Nat) (s : Transfer) : Prop :=
  s.bytes = min len (offered results s.calls)

/-- **A round** of a transfer takes what the call could transfer, up to the end. -/
theorem InTransfer.next {s s' : Transfer} (h : InTransfer len results s)
    (hstep : transferRound error len results s = .inl s') :
    InTransfer len results s' ∧ s'.calls = s.calls + 1 ∧ results s.calls ≠ none ∧
      offered results s.calls < len := by
  unfold InTransfer at h ⊢
  rw [transferRound] at hstep
  split at hstep
  · next hlt =>
    cases hresult : results s.calls with
    | none =>
        rw [hresult] at hstep
        cases hstep
    | some n =>
        rw [hresult] at hstep
        cases hstep
        have hoffered := offered_succ results s.calls
        rw [hresult, Option.getD_some] at hoffered
        refine ⟨?_, rfl, Option.some_ne_none n, by omega⟩
        show s.bytes + min n (len - s.bytes) = min len (offered results (s.calls + 1))
        omega
  · cases hstep

/-- If nothing fails and not enough comes, then from some call on nothing comes. -/
theorem exists_silent (hlt : ∀ k, offered results k < len) :
    ∃ k, ∀ i ≥ k, (results i).getD 0 = 0 := by
  have hfrom : ∀ d k, len - offered results k = d → ∃ k, ∀ i ≥ k, (results i).getD 0 = 0 := by
    intro d
    induction d using Nat.strongRecOn with
    | ind d ih =>
        intro k hd
        by_cases hsilent : ∀ i ≥ k, (results i).getD 0 = 0
        · exact ⟨k, hsilent⟩
        · obtain ⟨i, hi⟩ := not_forall.mp hsilent
          obtain ⟨hge, hpos⟩ := Classical.not_imp.mp hi
          have hmono := offered_mono results hge
          have hnext := offered_succ results i
          have hbound := hlt (i + 1)
          exact ih (len - offered results (i + 1)) (by omega) (i + 1) rfl
  exact hfrom _ 0 rfl

/-- **A transfer** returns if and only if it does not stall. -/
theorem stops_transferRound_iff :
    Loops.Stops (transferRound error len results) ⟨0, 0⟩ ↔ ¬ Stalls len results := by
  have hstart : InTransfer len results ⟨0, 0⟩ := by
    show 0 = min len (offered results 0)
    rw [offered]
    simp
  constructor
  · rintro hstops ⟨k, hsome, hsilent, hlt⟩
    refine absurd hstops (Loops.not_stops (J := InTransfer len results) hstart ?_)
    intro s hs
    have hbound : ∀ i, offered results i < len := by
      intro i
      rcases Nat.le_total i k with hle | hle
      · exact Nat.lt_of_le_of_lt (offered_mono results hle) hlt
      · refine lt_of_eq_of_lt ?_ hlt
        induction hle with
        | refl => rfl
        | step hle ih =>
            rw [offered_succ, hsilent _ hle, ih]
            rfl
    have hne : results s.calls ≠ none := by
      rcases Nat.lt_or_ge s.calls k with hbefore | hafter
      · exact hsome _ hbefore
      · rw [hsilent _ hafter]
        exact Option.some_ne_none 0
    obtain ⟨n, hn⟩ := Option.ne_none_iff_exists'.mp hne
    have hstep : transferRound error len results s =
        .inl ⟨s.bytes + min n (len - s.bytes), s.calls + 1⟩ := by
      have hmore := hbound s.calls
      unfold InTransfer at hs
      rw [transferRound, if_pos (by omega), hn]
    exact ⟨_, hstep, (hs.next hstep).1⟩
  · intro hnot
    -- the call that fails, or the one that completes the transfer
    have hend : ∃ k, results k = none ∨ len ≤ offered results k := by
      by_contra hnone
      simp only [not_exists, not_or, Nat.not_le] at hnone
      obtain ⟨k, hsilent⟩ := exists_silent fun k => (hnone k).2
      refine hnot ⟨k, fun i _ => (hnone i).1, ?_, (hnone k).2⟩
      intro i hi
      obtain ⟨n, hn⟩ := Option.ne_none_iff_exists'.mp (hnone i).1
      have hzero := hsilent i hi
      rw [hn, Option.getD_some] at hzero
      rw [hn, hzero]
    obtain ⟨k, hk⟩ := hend
    refine Loops.stops_of_measure (I := fun s => InTransfer len results s ∧ s.calls ≤ k)
      (fun s => k - s.calls) ⟨hstart, Nat.zero_le k⟩ ?_
    rintro s s' ⟨hs, hle⟩ hstep
    obtain ⟨hs', hcalls, hne, hlt⟩ := hs.next hstep
    have hnow : s.calls ≠ k := by
      rintro rfl
      rcases hk with hnone | hfull
      · exact hne hnone
      · omega
    exact ⟨⟨hs', by omega⟩, by omega⟩

/-- A transfer that returns without an error is complete. -/
theorem bytes_of_returns (herror : error ≠ connectOk) {t : Transferred}
    (h : Loops.Returns (transferRound error len results) ⟨0, 0⟩ t) (hcode : t.code = connectOk) :
    t.bytes = len := by
  have hstart : InTransfer len results ⟨0, 0⟩ := by
    show 0 = min len (offered results 0)
    rw [offered]
    simp
  obtain ⟨s, hs, hlast⟩ := h.invariant hstart fun s s' hs hstep => (hs.next hstep).1
  unfold InTransfer at hs
  rw [transferRound] at hlast
  split at hlast
  · split at hlast
    · cases hlast
      exact absurd hcode herror
    · cases hlast
  · cases hlast
    show s.bytes = len
    omega

theorem transfers_iff (herror : error ≠ connectOk) :
    (∃ rounds result, Loops.run (transferRound error len results) rounds ⟨0, 0⟩ = some result ∧
      (result.code = connectOk → result.bytes = len)) ↔ ¬ Stalls len results := by
  rw [← @stops_transferRound_iff error]
  constructor
  · rintro ⟨rounds, result, hresult, _⟩
    exact ⟨result, rounds, hresult⟩
  · rintro ⟨result, rounds, hresult⟩
    exact ⟨rounds, result, hresult, bytes_of_returns herror ⟨rounds, hresult⟩⟩

end Transfers

/-- **Start-up** terminates if and only if there is no socket or one of the first 1000
attempts to connect succeeds, and neither transfer stalls. -/
theorem terminates_iff (os : OsResults) (len : Nat) :
    Terminates os len ↔ (os.socketfd < 0 ∨ ∃ i < maxAttempts, os.connect i = 0) ∧
      ¬ Stalls len os.write ∧ ¬ Stalls len os.read := by
  have hsend : connectErrorSendFailed ≠ connectOk := by decide
  have hreceive : connectErrorReceiveFailed ≠ connectOk := by decide
  constructor
  · intro h
    exact ⟨(connects_iff _ _).mp h.connect, (transfers_iff hsend).mp h.send,
      (transfers_iff hreceive).mp h.receive⟩
  · rintro ⟨hconnect, hwrite, hread⟩
    exact ⟨(connects_iff _ _).mpr hconnect, (transfers_iff hsend).mpr hwrite,
      (transfers_iff hreceive).mpr hread⟩

/-- A server that refuses every connection, and closes those that there are. -/
def refusing : OsResults where
  socketfd := 3
  connect := fun _ => -1
  write := fun _ => some 4
  read := fun _ => some 0

/-- No call on it returns but those of `socket_sendfully`. -/
theorem not_terminates_refusing :
    (∀ rounds, socketConnect refusing.socketfd refusing.connect rounds = none) ∧
      (∀ rounds, socketReceivefully 4 refusing.read rounds = none) ∧
        ¬ Terminates refusing 4 := by
  have hconnect : ∀ rounds, socketConnect refusing.socketfd refusing.connect rounds = none := by
    intro rounds
    rw [Option.eq_none_iff_forall_ne_some]
    intro result hresult
    have hall : ∀ i, refusing.connect i ≠ 0 := fun _ => show (-1 : Int) ≠ 0 by decide
    exact not_stops_connectRound hall ⟨result, rounds, hresult⟩
  have hstalls : Stalls 4 refusing.read :=
    ⟨0, fun i hi => absurd hi (Nat.not_lt_zero i), fun _ _ => rfl, by decide⟩
  refine ⟨hconnect, ?_, ?_⟩
  · intro rounds
    rw [Option.eq_none_iff_forall_ne_some]
    intro result hresult
    exact stops_transferRound_iff.mp ⟨result, rounds, hresult⟩ hstalls
  · intro h
    obtain ⟨rounds, result, hresult, _⟩ := h.connect
    rw [hconnect] at hresult
    cases hresult

end Startup

end EsalsaMpi
