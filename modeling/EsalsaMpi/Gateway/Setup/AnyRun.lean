import EsalsaMpi.Gateway.Setup.Completion

/-!
# What holds in any run

Also where connections cross or get lost, a gateway has a listener only while it
accepts, for the stream that it accepts (`tidy_of_reachable`).
-/

namespace EsalsaMpi

open Endings SetupPhase

namespace GatewaySetup

variable {t : GatewayTable} {s s' : GatewaySetup}

/-- **What holds in any run**: a listener is there while its gateway accepts, and all
connections are between gateways of the rank. -/
structure Tidy (t : GatewayTable) (s : GatewaySetup) : Prop where
  inLoops : ∀ k, (s.phase k).InLoops t k
  listening : ∀ k l, s.listener k = some l → ∃ c stream, l.port = t.port k + stream ∧
    (s.phase k = .accept c stream ∨ ∃ socket, s.phase k = .close c stream socket)
  backlog : ∀ k l, s.listener k = some l → ∀ socket ∈ l.backlog, socket.rank = t.rank
  taken : ∀ k c stream socket, s.phase k = .close c stream socket → socket.rank = t.rank
  kept : ∀ p socket, s.sockets p = some socket → socket.rank = t.rank

theorem tidy_start (t : GatewayTable) : Tidy t (start t) where
  inLoops := (inv_start t).inLoops
  listening k l hl := nomatch hl
  backlog k l hl := nomatch hl
  taken := by
    intro k c stream socket hphase
    exact ((inv_start t).taken k c stream socket hphase).1 ▸ rfl
  kept p socket hsocket := nomatch hsocket

/-- A gateway without a listener goes on. -/
theorem Tidy.goto (h : Tidy t s) {g : Nat} {p' : SetupPhase} (hin : p'.InLoops t g)
    (hnone : s.listener g = none) (htaken : ∀ c stream socket, p' ≠ .close c stream socket) :
    Tidy t (s.goto g p') where
  inLoops k := by
    by_cases hk : k = g
    · subst hk
      rwa [phase_goto]
    · simpa [GatewaySetup.goto, hk] using h.inLoops k
  listening k l hl := by
    have hk : k ≠ g := by
      rintro rfl
      exact Option.some_ne_none l (hl.symm.trans hnone)
    simpa [GatewaySetup.goto, hk] using h.listening k l hl
  backlog := h.backlog
  taken k c stream socket hphase := by
    by_cases hk : k = g
    · subst hk
      rw [phase_goto] at hphase
      exact absurd hphase (htaken c stream socket)
    · exact h.taken k c stream socket (by simpa [GatewaySetup.goto, hk] using hphase)
  kept := h.kept

/-- It keeps a socket, if there is a place for it. -/
theorem Tidy.initSocketInfo (h : Tidy t s) {g i stream : Nat} {socket : TcpConnection}
    {next : SetupPhase} (hin : next.InLoops t g) (hnone : s.listener g = none)
    (htaken : ∀ c stream socket, next ≠ .close c stream socket) (hrank : socket.rank = t.rank) :
    Tidy t (s.initSocketInfo g i stream socket next) := by
  unfold GatewaySetup.initSocketInfo
  split
  · have hkept : Tidy t
        { s with sockets := Function.update s.sockets (g, i, stream) (some socket) } := by
      refine ⟨h.inLoops, h.listening, h.backlog, h.taken, fun p socket' hp => ?_⟩
      by_cases heq : p = (g, i, stream)
      · subst heq
        simp only [Function.update_self, Option.some.injEq] at hp
        exact hp ▸ hrank
      · exact h.kept p socket' (by simpa [heq] using hp)
    exact hkept.goto hin hnone htaken
  · exact h.goto trivial hnone (by rintro _ _ _ ⟨⟩)

/-- A listener is closed. -/
theorem Tidy.closed (h : Tidy t s) (g : Nat) : Tidy t (s.listening g none) where
  inLoops := h.inLoops
  listening k l hl := by
    by_cases hk : k = g
    · subst hk
      simp [GatewaySetup.listening] at hl
    · exact h.listening k l (by simpa [GatewaySetup.listening, hk] using hl)
  backlog k l hl := by
    by_cases hk : k = g
    · subst hk
      simp [GatewaySetup.listening] at hl
    · exact h.backlog k l (by simpa [GatewaySetup.listening, hk] using hl)
  taken := h.taken
  kept := h.kept

/-- A connection comes to a listener. -/
theorem Tidy.queued (h : Tidy t s) {i port : Nat} {backlog : List TcpConnection}
    {socket : TcpConnection} (hlistener : s.listener i = some ⟨port, backlog⟩)
    (hrank : socket.rank = t.rank) :
    Tidy t (s.listening i (some ⟨port, backlog ++ [socket]⟩)) where
  inLoops := h.inLoops
  listening k l hl := by
    by_cases hk : k = i
    · subst hk
      simp only [GatewaySetup.listening, Function.update_self, Option.some.injEq] at hl
      subst hl
      obtain ⟨c, stream, hport, hat⟩ := h.listening k _ hlistener
      exact ⟨c, stream, hport, hat⟩
    · exact h.listening k l (by simpa [GatewaySetup.listening, hk] using hl)
  backlog k l hl := by
    by_cases hk : k = i
    · subst hk
      simp only [GatewaySetup.listening, Function.update_self, Option.some.injEq] at hl
      subst hl
      intro socket' hmem
      rcases List.mem_append.mp hmem with hmem | hmem
      · exact h.backlog k _ hlistener socket' hmem
      · rwa [List.mem_singleton.mp hmem]
    · exact h.backlog k l (by simpa [GatewaySetup.listening, hk] using hl)
  taken := h.taken
  kept := h.kept

/-- A listener changes together with the place of its gateway, which stays at it. -/
theorem Tidy.relisten (h : Tidy t s) {g c stream : Nat} {backlog : List TcpConnection}
    {p' : SetupPhase} (hin : p'.InLoops t g)
    (hat : p' = .accept c stream ∨
      ∃ socket : TcpConnection, socket.rank = t.rank ∧ p' = .close c stream socket)
    (hbacklog : ∀ socket ∈ backlog, socket.rank = t.rank) :
    Tidy t ((s.listening g (some ⟨t.port g + stream, backlog⟩)).goto g p') where
  inLoops k := by
    by_cases hk : k = g
    · subst hk
      rwa [phase_goto]
    · simpa [GatewaySetup.goto, GatewaySetup.listening, hk] using h.inLoops k
  listening k l hl := by
    by_cases hk : k = g
    · subst hk
      simp only [GatewaySetup.goto, GatewaySetup.listening, Function.update_self,
        Option.some.injEq] at hl
      subst hl
      refine ⟨c, stream, rfl, ?_⟩
      rw [phase_goto]
      exact hat.imp_right fun hclose => hclose.imp fun _ hsocket => hsocket.2
    · simpa [GatewaySetup.goto, GatewaySetup.listening, hk] using h.listening k l
        (by simpa [GatewaySetup.goto, GatewaySetup.listening, hk] using hl)
  backlog k l hl := by
    by_cases hk : k = g
    · subst hk
      simp only [GatewaySetup.goto, GatewaySetup.listening, Function.update_self,
        Option.some.injEq] at hl
      subst hl
      exact hbacklog
    · exact h.backlog k l (by simpa [GatewaySetup.goto, GatewaySetup.listening, hk] using hl)
  taken k c' stream' socket hphase := by
    by_cases hk : k = g
    · subst hk
      rw [phase_goto] at hphase
      rcases hat with hat | ⟨socket', hrank, hat⟩ <;> rw [hat] at hphase <;> cases hphase
      exact hrank
    · exact h.taken k c' stream' socket
        (by simpa [GatewaySetup.goto, GatewaySetup.listening, hk] using hphase)
  kept := h.kept

/-- A gateway that neither accepts nor closes has no listener. -/
theorem Tidy.listener_eq_none (h : Tidy t s) {g : Nat}
    (haccept : ∀ c stream, s.phase g ≠ .accept c stream)
    (hclose : ∀ c stream socket, s.phase g ≠ .close c stream socket) : s.listener g = none := by
  cases hl : s.listener g with
  | none => rfl
  | some l =>
      obtain ⟨c, stream, _, hphase | ⟨socket, hphase⟩⟩ := h.listening g l hl
      · exact absurd hphase (haccept c stream)
      · exact absurd hphase (hclose c stream socket)

theorem connectToGateways_ne_close (t : GatewayTable) (k crank c stream : Nat)
    (socket : TcpConnection) : t.connectToGateways k crank ≠ .close c stream socket := by
  unfold GatewayTable.connectToGateways
  repeat' split
  all_goals exact SetupPhase.noConfusion

/-- **A step of any run.** -/
theorem Tidy.step (h : Tidy t s) (hstep : Step t s s') : Tidy t s' := by
  have hin := inLoops_step hstep h.inLoops
  cases hstep with
  | @listen g c stream hg _ =>
      exact h.relisten (by simpa using hin g) (Or.inl rfl) (by simp)
  | @accept g c stream port socket backlog hg hl =>
      obtain ⟨c', stream', rfl, hat⟩ := h.listening g _ hl
      have hranks := h.backlog g _ hl
      obtain rfl : stream = stream' := by
        rcases hat with hat | ⟨_, hat⟩ <;> rw [hg] at hat <;> cases hat
        rfl
      exact h.relisten (by simpa using hin g)
        (Or.inr ⟨socket, hranks socket List.mem_cons_self, rfl⟩)
        fun socket' hmem => hranks socket' (List.mem_cons_of_mem _ hmem)
  | @close g c stream socket hg =>
      have hlg : (s.listening g none).listener g = none := by simp [GatewaySetup.listening]
      have hgo : Goes t g (s.phase g) (t.afterAccept c stream) := hg ▸ Goes.close c stream socket
      unfold checkHost
      split
      · refine (h.closed g).initSocketInfo (hgo.inLoops (h.inLoops g)) hlg ?_ (h.taken g c stream socket hg)
        intro c' stream' socket'
        unfold GatewayTable.afterAccept
        split <;> exact SetupPhase.noConfusion
      · exact (h.closed g).goto trivial hlg (by rintro _ _ _ ⟨⟩)
  | @await g c socket hg _ _ =>
      have hlg : s.listener g = none := h.listener_eq_none (by simp [hg]) (by simp [hg])
      have hgo : Goes t g (s.phase g) (t.connectToGateways g (c + 1)) := hg ▸ Goes.await c
      have hopcodes : Tidy t { s with opcodes := s.opcodes.erase socket } :=
        ⟨h.inLoops, h.listening, h.backlog, h.taken, h.kept⟩
      exact hopcodes.goto (hgo.inLoops (h.inLoops g)) hlg (connectToGateways_ne_close t g (c + 1))
  | @connect g i stream backlog hg hl =>
      have hlg : s.listener g = none := h.listener_eq_none (by simp [hg]) (by simp [hg])
      have hgi : g ≠ i := by
        rintro rfl
        exact Option.some_ne_none _ (hl.symm.trans hlg)
      have hgo : Goes t g (s.phase g) (t.afterConnect g i stream) := hg ▸ Goes.connect i stream
      refine (h.queued hl rfl).initSocketInfo (hgo.inLoops (h.inLoops g)) ?_ ?_ rfl
      · simpa [GatewaySetup.listening, hgi] using hlg
      · intro c' stream' socket'
        unfold GatewayTable.afterConnect
        repeat' split
        all_goals exact SetupPhase.noConfusion
  | @ready g i socket hg _ =>
      have hlg : s.listener g = none := h.listener_eq_none (by simp [hg]) (by simp [hg])
      have hgo : Goes t g (s.phase g) (t.afterReady i) := hg ▸ Goes.ready i
      have hopcodes : Tidy t { s with opcodes := socket :: s.opcodes } :=
        ⟨h.inLoops, h.listening, h.backlog, h.taken, h.kept⟩
      refine hopcodes.goto (hgo.inLoops (h.inLoops g)) hlg ?_
      intro c' stream' socket'
      unfold GatewayTable.afterReady
      split <;> exact SetupPhase.noConfusion

theorem tidy_of_reachable (h : Reachable t s) : Tidy t s :=
  invariant_of_reachable h (tidy_start t) fun _ _ => Tidy.step

end GatewaySetup

end EsalsaMpi
