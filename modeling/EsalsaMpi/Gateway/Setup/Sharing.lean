import EsalsaMpi.Gateway.Setup.AnyRun
import EsalsaMpi.Library.SideBySide

/-!
# Gateways that share hosts

`AllGateways.ofRank` is what the gateways of one rank are in the state of all gateways.
Where every `connect` gets to the gateway that it is meant for (`AllGateways.Aimed`), a
step of all gateways is a step of those of one rank (`Separate.moves`).
-/

namespace EsalsaMpi

open Endings SetupPhase

namespace AllGateways

variable {a : GatewayAddresses} {s s' : AllGateways} {k r r' : Nat}

/-! ## The gateways of one rank -/

/-- The gateways of rank `r`. -/
def ofRank (s : AllGateways) (r : Nat) : GatewaySetup where
  phase := fun k => s.phase (k, r)
  listener := fun k => s.listener (k, r)
  sockets := fun p => s.sockets ((p.1, r), p.2)
  opcodes := s.opcodes.filter (·.rank = r)

/-- One value of a function of pairs changes. -/
theorem update_pair {α : Type} (f : Nat × Nat → α) (x : α) :
    (fun j => Function.update f (k, r) x (j, r)) = Function.update (fun j => f (j, r)) k x := by
  funext j
  by_cases hj : j = k
  · subst hj
    simp
  · simp [hj]

theorem update_pair_of_ne {α : Type} (f : Nat × Nat → α) (x : α) (hr : r' ≠ r) :
    (fun j => Function.update f (k, r) x (j, r')) = fun j => f (j, r') := by
  funext j
  simp [hr]

@[simp] theorem ofRank_goto (p : SetupPhase) :
    (s.goto (k, r) p).ofRank r = (s.ofRank r).goto k p := by
  simp only [ofRank, goto, GatewaySetup.goto, update_pair]

@[simp] theorem ofRank_goto_of_ne (p : SetupPhase) (hr : r' ≠ r) :
    (s.goto (k, r) p).ofRank r' = s.ofRank r' := by
  simp only [ofRank, goto, update_pair_of_ne _ _ hr]

@[simp] theorem ofRank_listening (l : Option Listener) :
    (s.listening (k, r) l).ofRank r = (s.ofRank r).listening k l := by
  simp only [ofRank, listening, GatewaySetup.listening, update_pair]

@[simp] theorem ofRank_listening_of_ne (l : Option Listener) (hr : r' ≠ r) :
    (s.listening (k, r) l).ofRank r' = s.ofRank r' := by
  simp only [ofRank, listening, update_pair_of_ne _ _ hr]

theorem ofRank_initSocketInfo (i stream : Nat) (socket : TcpConnection) (next : SetupPhase) :
    (s.initSocketInfo (k, r) i stream socket next).ofRank r =
      (s.ofRank r).initSocketInfo k i stream socket next := by
  unfold initSocketInfo GatewaySetup.initSocketInfo
  split
  · rw [ofRank_goto]
    congr 1
    simp only [ofRank, GatewaySetup.mk.injEq, true_and, and_true]
    funext p
    by_cases hp : p = (k, i, stream)
    · subst hp
      simp
    · rw [Function.update_of_ne hp, Function.update_of_ne]
      rintro heq
      exact hp (by simpa [Prod.ext_iff] using heq)
  · rw [ofRank_goto]

theorem ofRank_initSocketInfo_of_ne (i stream : Nat) (socket : TcpConnection) (next : SetupPhase)
    (hr : r' ≠ r) : (s.initSocketInfo (k, r) i stream socket next).ofRank r' = s.ofRank r' := by
  unfold initSocketInfo
  split
  · rw [ofRank_goto_of_ne _ hr]
    simp only [ofRank, GatewaySetup.mk.injEq, true_and, and_true]
    funext p
    rw [Function.update_of_ne]
    simp [hr]
  · rw [ofRank_goto_of_ne _ hr]

theorem ofRank_checkHost {crank stream : Nat} {socket : TcpConnection} (hrank : socket.rank = r) :
    (s.checkHost a (k, r) crank stream socket).ofRank r =
      (s.ofRank r).checkHost (a.ofRank r) k crank stream socket := by
  unfold checkHost GatewaySetup.checkHost
  rw [hrank]
  by_cases hhost : a.ipv4 (crank, r) = a.ipv4 (socket.client, r)
  · rw [if_pos hhost]
    exact (ofRank_initSocketInfo ..).trans (if_pos hhost).symm
  · rw [if_neg hhost]
    exact (ofRank_goto _).trans (if_neg hhost).symm

theorem ofRank_checkHost_of_ne (crank stream : Nat) (socket : TcpConnection) (hr : r' ≠ r) :
    (s.checkHost a (k, r) crank stream socket).ofRank r' = s.ofRank r' := by
  unfold checkHost
  split
  · exact ofRank_initSocketInfo_of_ne _ _ _ _ hr
  · exact ofRank_goto_of_ne _ hr

@[simp] theorem ofRank_erase (socket : TcpConnection) :
    ({ s with opcodes := s.opcodes.erase socket } : AllGateways).ofRank r =
      { s.ofRank r with opcodes := (s.ofRank r).opcodes.erase socket } := by
  simp only [ofRank, List.erase_filter]

theorem ofRank_erase_of_ne {socket : TcpConnection} (hr : r' ≠ socket.rank) :
    ({ s with opcodes := s.opcodes.erase socket } : AllGateways).ofRank r' = s.ofRank r' := by
  have hnot : socket ∉ s.opcodes.filter (·.rank = r') := by
    simp [List.mem_filter, hr.symm]
  simp only [ofRank, ← List.erase_filter, List.erase_of_not_mem hnot]

theorem ofRank_cons {socket : TcpConnection} (hrank : socket.rank = r) :
    ({ s with opcodes := socket :: s.opcodes } : AllGateways).ofRank r =
      { s.ofRank r with opcodes := socket :: (s.ofRank r).opcodes } := by
  simp [ofRank, hrank]

theorem ofRank_cons_of_ne {socket : TcpConnection} (hr : r' ≠ socket.rank) :
    ({ s with opcodes := socket :: s.opcodes } : AllGateways).ofRank r' = s.ofRank r' := by
  simp [ofRank, hr.symm]

/-! ## Where everybody gets to the right gateway -/

/-- **Who connects finds the right listener or none**: that of the gateway that it
connects to, for the stream. -/
def Aimed (a : GatewayAddresses) (s : AllGateways) : Prop :=
  ∀ g g' i stream l, s.phase g = .connect i stream → s.listener g' = some l →
    a.ipv4 g' = a.ipv4 (i, g.2) → s.bound g' = a.streamPort (i, g.2) stream →
    g' = (i, g.2) ∧ l.port = a.port g' + stream

/-- The gateways of each rank are in a state that they get to by themselves. -/
structure Separate (a : GatewayAddresses) (s : AllGateways) : Prop where
  reachable : ∀ r < a.gatewayCount, GatewaySetup.Reachable (a.ofRank r) (s.ofRank r)
  idle : ∀ k r, a.gatewayCount ≤ r → s.phase (k, r) = .returned ∧ s.listener (k, r) = none

theorem Separate.tidy (h : Separate a s) {p : SetupPhase} (hphase : s.phase (k, r) = p)
    (hne : p ≠ .returned) :
    r < a.gatewayCount ∧ GatewaySetup.Tidy (a.ofRank r) (s.ofRank r) := by
  have hr : r < a.gatewayCount := by
    by_contra hle
    exact hne (hphase ▸ (h.idle k r (by omega)).1)
  exact ⟨hr, GatewaySetup.tidy_of_reachable (h.reachable r hr)⟩

/-- **A step of all gateways** is one of the gateways of a rank, if it is not a `bind` that
fails. -/
theorem Separate.moves (h : Separate a s) (haimed : s.Aimed a) (hstep : Step a s s') :
    (∃ g crank stream, s.phase g = .listen crank stream ∧ s.Taken a g (a.streamPort g stream) ∧
        s' = { s with failed := g :: s.failed }) ∨
      s'.failed = s.failed ∧ ∃ r < a.gatewayCount,
        GatewaySetup.Step (a.ofRank r) (s.ofRank r) (s'.ofRank r) ∧
          ∀ r', r' ≠ r → s'.ofRank r' = s.ofRank r' := by
  cases hstep with
  | @listen g crank stream port hg _ _ =>
      obtain ⟨k, r⟩ := g
      obtain ⟨hr, htidy⟩ := h.tidy hg (by rintro ⟨⟩)
      have hclosed : (s.ofRank r).listener k = none :=
        htidy.listener_eq_none (by simp [ofRank, hg]) (by simp [ofRank, hg])
      refine Or.inr ⟨rfl, r, hr, ?_, fun r' hr' => ?_⟩
      · rw [ofRank_goto, ofRank_listening]
        exact .listen hg hclosed
      · rw [ofRank_goto_of_ne _ hr', ofRank_listening_of_ne _ hr']
        rfl
  | @bind g crank stream hg _ htaken => exact Or.inl ⟨g, crank, stream, hg, htaken, rfl⟩
  | @accept g crank stream port socket backlog hg hl =>
      obtain ⟨k, r⟩ := g
      obtain ⟨hr, htidy⟩ := h.tidy hg (by rintro ⟨⟩)
      refine Or.inr ⟨rfl, r, hr, ?_, fun r' hr' => ?_⟩
      · rw [ofRank_goto, ofRank_listening]
        exact .accept hg hl
      · rw [ofRank_goto_of_ne _ hr', ofRank_listening_of_ne _ hr']
  | @close g crank stream socket hg =>
      obtain ⟨k, r⟩ := g
      obtain ⟨hr, htidy⟩ := h.tidy hg (by rintro ⟨⟩)
      have hrank : socket.rank = r := htidy.taken k crank stream socket hg
      refine Or.inr ⟨?_, r, hr, ?_, fun r' hr' => ?_⟩
      · unfold checkHost initSocketInfo
        repeat' split
        all_goals rfl
      · rw [ofRank_checkHost hrank, ofRank_listening]
        exact .close hg
      · rw [ofRank_checkHost_of_ne _ _ _ hr', ofRank_listening_of_ne _ hr']
  | @await g crank socket hg hsocket hopcode =>
      obtain ⟨k, r⟩ := g
      obtain ⟨hr, htidy⟩ := h.tidy hg (by rintro ⟨⟩)
      have hrank : socket.rank = r := htidy.kept (k, crank, 0) socket hsocket
      refine Or.inr ⟨rfl, r, hr, ?_, fun r' hr' => ?_⟩
      · rw [ofRank_goto, ofRank_erase]
        exact .await hg hsocket (List.mem_filter.mpr ⟨hopcode, by simpa using hrank⟩)
      · rw [ofRank_goto_of_ne _ hr', ofRank_erase_of_ne (hrank ▸ hr')]
  | @connect g g' i stream l hg hl hhost hport =>
      obtain ⟨k, r⟩ := g
      obtain ⟨hr, htidy⟩ := h.tidy hg (by rintro ⟨⟩)
      obtain ⟨port, backlog⟩ := l
      obtain ⟨rfl, rfl⟩ := haimed _ _ _ _ _ hg hl hhost hport
      refine Or.inr ⟨?_, r, hr, ?_, fun r' hr' => ?_⟩
      · unfold initSocketInfo
        split <;> rfl
      · rw [ofRank_initSocketInfo, ofRank_listening]
        exact .connect hg hl
      · rw [ofRank_initSocketInfo_of_ne _ _ _ _ hr', ofRank_listening_of_ne _ hr']
  | @ready g i socket hg hsocket =>
      obtain ⟨k, r⟩ := g
      obtain ⟨hr, htidy⟩ := h.tidy hg (by rintro ⟨⟩)
      have hrank : socket.rank = r := htidy.kept (k, i, 0) socket hsocket
      refine Or.inr ⟨rfl, r, hr, ?_, fun r' hr' => ?_⟩
      · rw [ofRank_goto, ofRank_cons hrank]
        exact .ready hg hsocket
      · rw [ofRank_goto_of_ne _ hr', ofRank_cons_of_ne (hrank ▸ hr')]

/-- **And keeps the ranks separate.** -/
theorem Separate.step (h : Separate a s) (haimed : s.Aimed a) (hstep : Step a s s') :
    Separate a s' := by
  rcases h.moves haimed hstep with ⟨g, _, _, _, _, rfl⟩ | ⟨_, r, hr, hrank, hsame⟩
  · exact ⟨h.reachable, h.idle⟩
  · refine ⟨fun r' hr' => ?_, fun k r' hr' => ?_⟩
    · by_cases heq : r' = r
      · subst heq
        exact (h.reachable r' hr').tail hrank
      · rw [hsame r' heq]
        exact h.reachable r' hr'
    · have heq := hsame r' (by omega)
      have hphase : s'.phase (k, r') = s.phase (k, r') := congrArg (·.phase k) heq
      have hlistener : s'.listener (k, r') = s.listener (k, r') := congrArg (·.listener k) heq
      rw [hphase, hlistener]
      exact h.idle k r' hr'

theorem ofRank_start (hr : r < a.gatewayCount) :
    (start a).ofRank r = GatewaySetup.start (a.ofRank r) := by
  simp only [ofRank, start, hr, and_true]
  rfl

theorem separate_start (a : GatewayAddresses) : Separate a (start a) where
  reachable r hr := by
    rw [ofRank_start hr]
    exact .refl
  idle k r hr := ⟨by simp [start, Nat.not_lt.mpr hr], rfl⟩

end AllGateways

end EsalsaMpi
