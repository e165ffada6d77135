import EsalsaMpi.Gateway.Setup.Crossing
import EsalsaMpi.Library.Endings
import Mathlib.Algebra.Order.BigOperators.Group.Finset

/-!
# When the set-up comes to its end

Every step brings a gateway forward, so no run goes on for ever.  Where a connection has two
streams or more, but no more than there are sockets, there is always a gateway that can go on:
the first one that has not returned, or the one that it connects to.  So every run ends with all
gateways returned.

With one stream, and gateways in three clusters, a connection can come too early and be lost.
The gateway that it was for then waits for it for ever.  `setup_completes_iff` says exactly when the
set-up always comes to its end.
-/

namespace EsalsaMpi

open SetupPhase Endings

/-! ## Steps that are left -/

/-- A bound for the steps that gateway `k` still takes. -/
def GatewayTable.stepsLeft (t : GatewayTable) (k : Nat) : SetupPhase → Nat
  | .listen c s =>
    t.clusterCount * t.streams + t.clusterCount + (k - c) * (3 * t.streams + 1) - 3 * s
  | .accept c s =>
    t.clusterCount * t.streams + t.clusterCount + (k - c) * (3 * t.streams + 1) - (3 * s + 1)
  | .close c s _ =>
    t.clusterCount * t.streams + t.clusterCount + (k - c) * (3 * t.streams + 1) - (3 * s + 2)
  | .await c =>
    t.clusterCount * t.streams + t.clusterCount + (k - c) * (3 * t.streams + 1) - 3 * t.streams
  | .connect i s => (t.clusterCount - i) * t.streams - s + t.clusterCount
  | .ready i => t.clusterCount - i
  | _ => 0

namespace SetupPhase

variable {t : GatewayTable} {k c i : Nat} {p p' : SetupPhase}

/-- While it accepts, a gateway has the steps for one more gateway before it. -/
theorem accepting_mul (hc : c < k) (x : Nat) : (k - c) * x = (k - (c + 1)) * x + x := by
  obtain ⟨d, rfl⟩ := Nat.exists_eq_add_of_lt hc
  rw [show c + d + 1 - c = d + 1 by omega, show c + d + 1 - (c + 1) = d by omega, Nat.succ_mul]

/-- **A gateway that goes on** has fewer steps left. -/
theorem Goes.stepsLeft_lt (h : Goes t k p p') (hin : p.InLoops t k) :
    t.stepsLeft k p' < t.stepsLeft k p := by
  cases h with
  | listen c s =>
      have := accepting_mul hin.2.1 (3 * t.streams + 1)
      have := hin.2.2
      simp only [GatewayTable.stepsLeft]
      omega
  | accept c s socket =>
      have := accepting_mul hin.2.1 (3 * t.streams + 1)
      have := hin.2.2
      simp only [GatewayTable.stepsLeft]
      omega
  | close c s socket =>
      have := accepting_mul hin.2.1 (3 * t.streams + 1)
      have := hin.2.2
      unfold GatewayTable.afterAccept
      split <;> simp only [GatewayTable.stepsLeft] <;> omega
  | closeOut c s socket =>
      have := accepting_mul hin.2.1 (3 * t.streams + 1)
      have := hin.2.2
      simp only [GatewayTable.stepsLeft]
      omega
  | await c =>
      have := accepting_mul hin.2 (3 * t.streams + 1)
      unfold GatewayTable.connectToGateways
      split
      · simp only [GatewayTable.stepsLeft]
        omega
      · split
        · have : (t.clusterCount - (k + 1)) * t.streams ≤ t.clusterCount * t.streams :=
            Nat.mul_le_mul_right _ (Nat.sub_le _ _)
          simp only [GatewayTable.stepsLeft]
          omega
        · simp only [GatewayTable.stepsLeft]
          omega
  | connect i s =>
      have := accepting_mul hin.2.1 t.streams
      have := hin.2.2
      unfold GatewayTable.afterConnect
      split
      · simp only [GatewayTable.stepsLeft]
        omega
      · split <;> simp only [GatewayTable.stepsLeft] <;> omega
  | connectOut i s =>
      have := hin.2.1
      simp only [GatewayTable.stepsLeft]
      omega
  | ready i =>
      have := hin.2
      unfold GatewayTable.afterReady
      split <;> simp only [GatewayTable.stepsLeft] <;> omega

/-- What a gateway has heard it does not forget. -/
theorem Goes.hears (h : Goes t k p p') (hne : p' ≠ .outOfBounds) (hheard : p.Heard c) :
    p'.Heard c := by
  cases h with
  | listen c' s => exact hheard
  | accept c' s socket => exact hheard
  | close c' s socket =>
      unfold GatewayTable.afterAccept
      split <;> exact hheard
  | closeOut c' s socket => exact absurd rfl hne
  | await c' =>
      unfold GatewayTable.connectToGateways
      split
      · exact Nat.lt_succ_of_lt hheard
      · split <;> trivial
  | connect i s =>
      unfold GatewayTable.afterConnect
      split
      · trivial
      · split <;> trivial
  | connectOut i s => exact absurd rfl hne
  | ready i =>
      unfold GatewayTable.afterReady
      split <;> trivial

/-- Whom a gateway has newly told. -/
theorem Goes.tells (h : Goes t k p p') (hk : k < i) (hi : i < t.clusterCount)
    (htold : p'.Told i) : p.Told i ∨ p = .ready i := by
  cases h with
  | listen c' s => cases htold
  | accept c' s socket => cases htold
  | close c' s socket =>
      unfold GatewayTable.afterAccept at htold
      split at htold <;> cases htold
  | closeOut c' s socket => cases htold
  | await c' =>
      unfold GatewayTable.connectToGateways at htold
      split at htold
      · cases htold
      · split at htold
        · cases htold
        · omega
  | connect i' s =>
      unfold GatewayTable.afterConnect at htold
      split at htold
      · cases htold
      · split at htold
        · cases htold
        · simp only [Told] at htold
          omega
  | connectOut i' s => cases htold
  | ready i' =>
      have hle : i ≤ i' := by
        unfold GatewayTable.afterReady at htold
        split at htold
        · exact Nat.le_of_lt_succ htold
        · omega
      rcases Nat.lt_or_eq_of_le hle with hlt | rfl
      · exact Or.inl hlt
      · exact Or.inr rfl

end SetupPhase

namespace GatewaySetup

/-- All gateways have returned. -/
def AllReturned (t : GatewayTable) (s : GatewaySetup) : Prop :=
  ∀ k < t.clusterCount, s.phase k = .returned

section Steps

variable {t : GatewayTable} {s s' : GatewaySetup} {g : Nat} {p' : SetupPhase}

/-- **What a gateway that waits relies on**: its listener is open, the opcode that it has not
heard yet is on its way, and nobody has left the bounds of an array. -/
structure Serving (t : GatewayTable) (s : GatewaySetup) : Prop where
  listens : ∀ i c stream, s.phase i = .accept c stream →
    ∃ b, s.listener i = some ⟨t.port i + stream, b⟩
  tells : ∀ c i, c < i → i < t.clusterCount → (s.phase c).Told i → ¬ (s.phase i).Heard c →
    ⟨c, i, 0, t.rank⟩ ∈ s.opcodes
  inBounds : ∀ k, s.phase k ≠ .outOfBounds

/-- What a step has to show for it. -/
theorem Serving.advance (h : Serving t s) (hgo : Goes t g (s.phase g) p')
    (hphase : s'.phase = Function.update s.phase g p') (hbounds : p' ≠ .outOfBounds)
    (hlistener : ∀ i port b, i ≠ g → s.listener i = some ⟨port, b⟩ →
      ∃ b', s'.listener i = some ⟨port, b'⟩)
    (haccept : ∀ c stream, p' = .accept c stream →
      ∃ b, s'.listener g = some ⟨t.port g + stream, b⟩)
    (hopcodes : ∀ c i, ⟨c, i, 0, t.rank⟩ ∈ s.opcodes →
      ⟨c, i, 0, t.rank⟩ ∈ s'.opcodes ∨ i = g ∧ p'.Heard c)
    (hready : ∀ i, s.phase g = .ready i → ⟨g, i, 0, t.rank⟩ ∈ s'.opcodes) : Serving t s' := by
  have hself : s'.phase g = p' := by rw [hphase, Function.update_self]
  have hother : ∀ k, k ≠ g → s'.phase k = s.phase k := by
    intro k hk
    rw [hphase, Function.update_of_ne hk]
  constructor
  · intro i c stream hi
    by_cases hig : i = g
    · subst hig
      exact haccept c stream (hself ▸ hi)
    · rw [hother i hig] at hi
      obtain ⟨b, hb⟩ := h.listens i c stream hi
      exact hlistener i _ b hig hb
  · intro c i hc hi htold hheard
    have hnotyet : ¬ (s.phase i).Heard c := by
      intro hold
      by_cases hig : i = g
      · subst hig
        rw [hself] at hheard
        exact hheard (hgo.hears hbounds hold)
      · rw [hother i hig] at hheard
        exact hheard hold
    have hsent : (s.phase c).Told i ∨ c = g ∧ s.phase g = .ready i := by
      by_cases hcg : c = g
      · subst hcg
        rw [hself] at htold
        exact (hgo.tells hc hi htold).imp_right fun heq => ⟨rfl, heq⟩
      · rw [hother c hcg] at htold
        exact Or.inl htold
    rcases hsent with hold | ⟨rfl, hnew⟩
    · rcases hopcodes c i (h.tells c i hc hi hold hnotyet) with hstill | ⟨rfl, hnow⟩
      · exact hstill
      · rw [hself] at hheard
        exact absurd hnow hheard
    · exact hready i hnew
  · intro k
    by_cases hkg : k = g
    · rw [hkg, hself]
      exact hbounds
    · rw [hother k hkg]
      exact h.inBounds k

/-- **A step brings one gateway forward**, and whoever waits can still rely on the others. -/
theorem exists_goes (hinv : Inv t s) (h : Serving t s) (hstreams : t.streams ≤ maxStreams)
    (hstep : Step t s s') :
    Serving t s' ∧ ∃ g p', Goes t g (s.phase g) p' ∧ s'.phase = Function.update s.phase g p' := by
  cases hstep with
  | @listen g c stream hg hclosed =>
      have hgo : Goes t g (s.phase g) (.accept c stream) := hg ▸ Goes.listen c stream
      refine ⟨h.advance hgo rfl (by simp) ?_ ?_ (fun _ _ hs => Or.inl hs) (by simp [hg]),
        g, _, hgo, rfl⟩
      · intro i port b hi hb
        exact ⟨b, by simpa [goto, listening, hi] using hb⟩
      · intro c' stream' heq
        cases heq
        exact ⟨[], by simp [goto, listening]⟩
  | @accept g c stream port socket backlog hg hlistener =>
      have hgo : Goes t g (s.phase g) (.close c stream socket) := hg ▸ Goes.accept c stream socket
      refine ⟨h.advance hgo rfl (by simp) ?_ (by simp) (fun _ _ hs => Or.inl hs) (by simp [hg]),
        g, _, hgo, rfl⟩
      intro i port b hi hb
      exact ⟨b, by simpa [goto, listening, hi] using hb⟩
  | @close g c stream socket hg =>
      have hin := hinv.inLoops g
      rw [hg] at hin
      have htaken := (hinv.taken g c stream socket hg).1
      rw [checkHost, if_pos (by rw [htaken]), initSocketInfo,
        if_pos (Nat.lt_of_lt_of_le hin.2.2 hstreams)]
      have hgo : Goes t g (s.phase g) (t.afterAccept c stream) := hg ▸ Goes.close c stream socket
      refine ⟨h.advance hgo rfl ?_ ?_ ?_ (fun _ _ hs => Or.inl hs) (by simp [hg]), g, _, hgo, rfl⟩
      · unfold GatewayTable.afterAccept
        split <;> simp
      · intro i port b hi hb
        exact ⟨b, by simpa [goto, listening, hi] using hb⟩
      · intro c' stream' heq
        unfold GatewayTable.afterAccept at heq
        split at heq <;> cases heq
  | @await g c socket hg hsocket hopcode =>
      have hin := hinv.inLoops g
      rw [hg] at hin
      have hkept := (hinv.kept g c 0 hin.2 hin.1 t.streams_pos (by rw [hg]; exact Nat.le_refl c)).1
      rw [hsocket] at hkept
      cases hkept
      have hgo : Goes t g (s.phase g) (t.connectToGateways g (c + 1)) := hg ▸ Goes.await c
      refine ⟨h.advance hgo rfl ?_ (fun i port b _ hb => ⟨b, hb⟩) ?_ ?_ (by simp [hg]),
        g, _, hgo, rfl⟩
      · unfold GatewayTable.connectToGateways
        split
        · simp
        · split <;> simp
      · intro c' stream' heq
        unfold GatewayTable.connectToGateways at heq
        split at heq
        · cases heq
        · split at heq <;> cases heq
      · intro c' i hs
        by_cases hsame : (⟨c', i, 0, t.rank⟩ : TcpConnection) = ⟨c, g, 0, t.rank⟩
        · cases hsame
          refine Or.inr ⟨rfl, ?_⟩
          unfold GatewayTable.connectToGateways
          split
          · exact Nat.lt_succ_self c
          · split <;> trivial
        · exact Or.inl ((List.mem_erase_of_ne hsame).mpr hs)
  | @connect g i stream backlog hg hlistener =>
      have hin := hinv.inLoops g
      rw [hg] at hin
      rw [initSocketInfo, if_pos (Nat.lt_of_lt_of_le hin.2.2 hstreams)]
      have hgo : Goes t g (s.phase g) (t.afterConnect g i stream) := hg ▸ Goes.connect i stream
      refine ⟨h.advance hgo rfl ?_ ?_ ?_ (fun _ _ hs => Or.inl hs) (by simp [hg]), g, _, hgo, rfl⟩
      · unfold GatewayTable.afterConnect
        split
        · simp
        · split <;> simp
      · intro j port b _ hb
        by_cases hji : j = i
        · subst hji
          rw [hlistener] at hb
          cases hb
          exact ⟨backlog ++ [⟨g, j, stream, t.rank⟩], by simp [goto, listening]⟩
        · exact ⟨b, by simpa [goto, listening, hji] using hb⟩
      · intro c' stream' heq
        unfold GatewayTable.afterConnect at heq
        split at heq
        · cases heq
        · split at heq <;> cases heq
  | @ready g i socket hg hsocket =>
      have hin := hinv.inLoops g
      rw [hg] at hin
      have hmade := hinv.made g i 0 hin.1 hin.2 t.streams_pos (by rw [hg]; trivial)
      rw [hsocket] at hmade
      cases hmade
      have hgo : Goes t g (s.phase g) (t.afterReady i) := hg ▸ Goes.ready i
      refine ⟨h.advance hgo rfl ?_ (fun i port b _ hb => ⟨b, hb⟩) ?_
        (fun _ _ hs => Or.inl (List.mem_cons_of_mem _ hs)) ?_, g, _, hgo, rfl⟩
      · unfold GatewayTable.afterReady
        split <;> simp
      · intro c' stream' heq
        unfold GatewayTable.afterReady at heq
        split at heq <;> cases heq
      · intro i' heq
        rw [hg] at heq
        cases heq
        exact List.mem_cons_self

/-! ## Progress -/

/-- **A gateway that accepts can go on** if the one that it accepts from has returned. -/
theorem exists_step_of_accepting (hinv : Inv t s) (h : Serving t s)
    (hroom : 2 ≤ t.streams ∨ t.clusterCount ≤ 2) {i c : Nat} (hc : c < i)
    (hi : i < t.clusterCount) (hmade : ∀ stream, s.phase i = .accept c stream →
      (s.phase c).Made i stream) (htold : s.phase i = .await c → (s.phase c).Told i)
    (hphase : (∃ stream, s.phase i = .listen c stream) ∨ (∃ stream, s.phase i = .accept c stream) ∨
      (∃ stream socket, s.phase i = .close c stream socket) ∨ s.phase i = .await c) :
    ∃ s', Step t s s' := by
  have hin := hinv.inLoops i
  rcases hphase with ⟨stream, hphase⟩ | ⟨stream, hphase⟩ | ⟨stream, socket, hphase⟩ | hphase
  · exact ⟨_, .listen hphase (listener_eq_none hinv (by simp [hphase]) (by simp [hphase]))⟩
  · rw [hphase] at hin
    obtain ⟨⟨port, backlog⟩, hlistener, hne⟩ := ((hinv.listening i).waits c stream
      (hroom.imp_right fun htwo => by omega) hc hi hin.2.2 (hmade stream hphase)).2
        (by rw [hphase]; simp [Accepted])
    cases backlog with
    | nil => exact absurd rfl hne
    | cons socket backlog => exact ⟨_, .accept hphase hlistener⟩
  · exact ⟨_, .close hphase⟩
  · have hsocket := (hinv.kept i c 0 hc hi t.streams_pos (by rw [hphase]; exact Nat.le_refl c)).1
    exact ⟨_, .await hphase hsocket
      (h.tells c i hc hi (htold hphase) (by rw [hphase]; exact Nat.lt_irrefl c))⟩

/-- **There is always a gateway that can go on**, until all have returned. -/
theorem allReturned_or_step (hinv : Inv t s) (h : Serving t s)
    (hroom : 2 ≤ t.streams ∨ t.clusterCount ≤ 2) : AllReturned t s ∨ ∃ s', Step t s s' := by
  by_contra hstuck
  rw [not_or, AllReturned] at hstuck
  obtain ⟨hsome, hnone⟩ := hstuck
  -- the first gateway that has not returned
  have hex : ∃ k, k < t.clusterCount ∧ s.phase k ≠ .returned := by simpa using hsome
  classical
  let k := Nat.find hex
  obtain ⟨hk, hphase⟩ : k < t.clusterCount ∧ s.phase k ≠ .returned := Nat.find_spec hex
  have hbefore : ∀ c < k, s.phase c = .returned := by
    intro c hc
    by_contra hne
    exact Nat.find_min hex hc ⟨Nat.lt_trans hc hk, hne⟩
  have haccepting : ∀ {i c : Nat}, c < k → c < i → i < t.clusterCount →
      ((∃ stream, s.phase i = .listen c stream) ∨ (∃ stream, s.phase i = .accept c stream) ∨
        (∃ stream socket, s.phase i = .close c stream socket) ∨ s.phase i = .await c) → False := by
    intro i c hc hci hi hwhere
    exact hnone (exists_step_of_accepting hinv h hroom hci hi
      (fun stream _ => by rw [hbefore c hc]; trivial) (fun _ => by rw [hbefore c hc]; trivial)
      hwhere)
  have hin := hinv.inLoops k
  cases hcase : s.phase k with
  | listen c stream =>
      rw [hcase] at hin
      exact haccepting hin.2.1 hin.2.1 hk (Or.inl ⟨stream, hcase⟩)
  | accept c stream =>
      rw [hcase] at hin
      exact haccepting hin.2.1 hin.2.1 hk (Or.inr (Or.inl ⟨stream, hcase⟩))
  | close c stream socket => exact hnone ⟨_, .close hcase⟩
  | await c =>
      rw [hcase] at hin
      exact haccepting hin.2 hin.2 hk (Or.inr (Or.inr (Or.inr hcase)))
  | connect i stream =>
      rw [hcase] at hin
      obtain ⟨hki, hi, hstream⟩ := hin
      -- gateway `i` has not kept the connection that is being made
      have hnotKept : ¬ (s.phase i).Kept k stream := by
        intro hkept
        have hconn := (hinv.kept i k stream hki hi hstream hkept).2
        simp [Connected, hcase, Made] at hconn
      have hini := hinv.inLoops i
      have hwhere : ∀ {c : Nat}, c < k → c < i := fun hc => Nat.lt_trans hc hki
      cases hcasei : s.phase i with
      | listen c stream' =>
          exact hnone ⟨_, .listen hcasei
            (listener_eq_none hinv (by simp [hcasei]) (by simp [hcasei]))⟩
      | accept c stream' =>
          rw [hcasei] at hini hnotKept
          simp only [Kept] at hnotKept
          rcases Nat.lt_or_ge c k with hlt | hge
          · exact haccepting hlt (hwhere hlt) hi (Or.inr (Or.inl ⟨stream', hcasei⟩))
          · obtain rfl : c = k := by omega
            rcases Nat.lt_or_eq_of_le (show stream' ≤ stream by omega) with hlt | rfl
            · refine hnone (exists_step_of_accepting hinv h hroom hki hi ?_ ?_
                (Or.inr (Or.inl ⟨stream', hcasei⟩)))
              · intro stream'' heq
                rw [hcasei] at heq
                cases heq
                rw [hcase]
                exact Or.inr ⟨rfl, hlt⟩
              · intro heq
                rw [hcasei] at heq
                cases heq
            · obtain ⟨b, hb⟩ := h.listens i _ stream' hcasei
              exact hnone ⟨_, .connect hcase hb⟩
      | close c stream' socket => exact hnone ⟨_, .close hcasei⟩
      | await c =>
          rw [hcasei] at hini hnotKept
          exact haccepting (Nat.lt_of_not_le hnotKept) (hwhere (Nat.lt_of_not_le hnotKept)) hi
            (Or.inr (Or.inr (Or.inr hcasei)))
      | connect _ _ => exact hnotKept (by rw [hcasei]; trivial)
      | ready _ => exact hnotKept (by rw [hcasei]; trivial)
      | returned => exact hnotKept (by rw [hcasei]; trivial)
      | unexpectedHost crank => exact hinv.expected i crank hcasei
      | outOfBounds => exact h.inBounds i hcasei
  | ready i =>
      rw [hcase] at hin
      have hsocket := hinv.made k i 0 hin.1 hin.2 t.streams_pos (by rw [hcase]; trivial)
      exact hnone ⟨_, .ready hcase hsocket⟩
  | returned => exact hphase hcase
  | unexpectedHost crank => exact hinv.expected k crank hcase
  | outOfBounds => exact h.inBounds k hcase

/-- What holds between the steps where a run comes to its end. -/
theorem serving_start (t : GatewayTable) : Serving t (start t) := by
  have hphase : ∀ k, (start t).phase k = .listen 0 0 ∨ (start t).phase k = .connect 1 0 ∨
      (start t).phase k = .returned := by
    intro k
    simp only [start, GatewayTable.connectToGateways]
    split
    · rcases Nat.eq_zero_or_pos k with rfl | hpos
      · simp only [Nat.lt_irrefl, if_false, Nat.zero_add]
        split <;> simp
      · rw [if_pos hpos]
        exact Or.inl rfl
    · exact Or.inr (Or.inr rfl)
  constructor
  · intro i c stream hi
    rcases hphase i with h | h | h <;> rw [h] at hi <;> cases hi
  · intro c i hc hi htold
    have hzero : c ≠ 0 → (start t).phase c = .listen 0 0 := fun hne =>
      (start_phase t (Nat.lt_trans hc hi)).resolve_right fun h => hne h.1
    by_cases hne : c = 0
    · subst hne
      rcases start_phase t (Nat.lt_trans hc hi) with h | ⟨_, h | h⟩
      · rw [h] at htold
        cases htold
      · rw [h] at htold
        cases htold
      · omega
    · rw [hzero hne] at htold
      cases htold
  · intro k hk
    rcases hphase k with h | h | h <;> rw [h] at hk <;> cases hk

/-- All gateways together have fewer steps left after a step. -/
theorem sum_stepsLeft_lt (hinv : Inv t s) (hgo : Goes t g (s.phase g) p')
    (hphase : s'.phase = Function.update s.phase g p') :
    ∑ k ∈ Finset.range t.clusterCount, t.stepsLeft k (s'.phase k) <
      ∑ k ∈ Finset.range t.clusterCount, t.stepsLeft k (s.phase k) := by
  have hlt := hgo.stepsLeft_lt (hinv.inLoops g)
  have hg : g < t.clusterCount := by
    have hin := hinv.inLoops g
    revert hgo hin
    cases s.phase g with
    | listen c stream => exact fun _ hin => hin.1
    | accept c stream => exact fun _ hin => hin.1
    | close c stream socket => exact fun _ hin => hin.1
    | await c => exact fun _ hin => hin.1
    | connect i stream => exact fun _ hin => Nat.lt_trans hin.1 hin.2.1
    | ready i => exact fun _ hin => Nat.lt_trans hin.1 hin.2
    | returned => exact fun hgo => by cases hgo
    | unexpectedHost crank => exact fun hgo => by cases hgo
    | outOfBounds => exact fun hgo => by cases hgo
  apply Finset.sum_lt_sum
  · intro k _
    rw [hphase]
    by_cases hk : k = g
    · rw [hk, Function.update_self]
      exact Nat.le_of_lt hlt
    · rw [Function.update_of_ne hk]
  · refine ⟨g, Finset.mem_range.mpr hg, ?_⟩
    rw [hphase, Function.update_self]
    exact hlt

end Steps

/-! ## Where it comes to its end -/

/-- The arrays are long enough, and no connection comes too early. -/
def Suffices (t : GatewayTable) : Prop :=
  t.clusterCount ≤ 1 ∨ (t.streams ≤ maxStreams ∧ (2 ≤ t.streams ∨ t.clusterCount ≤ 2))

/-- **Every run ends with all gateways returned** where no connection comes too early. -/
theorem endsIn_of_room {t : GatewayTable} (hstreams : t.streams ≤ maxStreams)
    (hroom : 2 ≤ t.streams ∨ t.clusterCount ≤ 2) :
    EndsIn (Step t) (AllReturned t) (start t) := by
  have hroomy : t.Roomy := hroom.imp_right fun h => Nat.le_succ_of_le h
  refine endsIn_of_measure (I := fun s => Inv t s ∧ Serving t s)
    (μ := fun s => ∑ k ∈ Finset.range t.clusterCount, t.stepsLeft k (s.phase k))
    ⟨inv_start t, serving_start t⟩ ?_ ?_
  · intro s s' hs hstep
    obtain ⟨hserving, g, p', hgo, hphase⟩ := exists_goes hs.1 hs.2 hstreams hstep
    exact ⟨⟨inv_step hs.1 hroomy hstep, hserving⟩, sum_stepsLeft_lt hs.1 hgo hphase⟩
  · intro s hs
    exact allReturned_or_step hs.1 hs.2 hroom

/-! ## Dead ends -/

section DeadEnds

variable {t : GatewayTable} {s s' : GatewaySetup}

/-- In any run a step brings one gateway forward, or to an unexpected host; a socket that it has
connected has a place. -/
theorem goes_of_step (hstep : Step t s s') : ∃ g p', s'.phase = Function.update s.phase g p' ∧
    (Goes t g (s.phase g) p' ∨
      ∃ crank stream socket, s.phase g = .close crank stream socket ∧ p' = .unexpectedHost crank) ∧
    ∀ i stream, s.phase g = .connect i stream → p' = .outOfBounds ∨ stream < maxStreams := by
  cases hstep with
  | @listen g c stream hg _ => exact ⟨g, _, rfl, Or.inl (hg ▸ .listen c stream), by simp [hg]⟩
  | @accept g c stream _ socket _ hg _ =>
      exact ⟨g, _, rfl, Or.inl (hg ▸ .accept c stream socket), by simp [hg]⟩
  | @close g c stream socket hg =>
      unfold checkHost initSocketInfo
      split
      · split
        · exact ⟨g, _, rfl, Or.inl (hg ▸ .close c stream socket), by simp [hg]⟩
        · exact ⟨g, _, rfl, Or.inl (hg ▸ .closeOut c stream socket), by simp [hg]⟩
      · exact ⟨g, _, rfl, Or.inr ⟨c, stream, socket, hg, rfl⟩, by simp [hg]⟩
  | @await g c _ hg _ _ => exact ⟨g, _, rfl, Or.inl (hg ▸ .await c), by simp [hg]⟩
  | @connect g i stream _ hg _ =>
      unfold initSocketInfo
      split
      · next hlt =>
        refine ⟨g, _, rfl, Or.inl (hg ▸ .connect i stream), fun i' stream' heq => ?_⟩
        rw [hg] at heq
        cases heq
        exact Or.inr hlt
      · exact ⟨g, _, rfl, Or.inl (hg ▸ .connectOut i stream), fun _ _ _ => Or.inl rfl⟩
  | @ready g i _ hg _ => exact ⟨g, _, rfl, Or.inl (hg ▸ .ready i), by simp [hg]⟩

/-- The counts stay within the bounds of the loops in any run. -/
theorem inLoops_step (hstep : Step t s s') (h : ∀ k, (s.phase k).InLoops t k) (k : Nat) :
    (s'.phase k).InLoops t k := by
  obtain ⟨g, p', hphase, hgo, _⟩ := goes_of_step hstep
  rw [hphase]
  by_cases hk : k = g
  · subst hk
    rw [Function.update_self]
    rcases hgo with hgo | ⟨_, _, _, _, rfl⟩
    · exact hgo.inLoops (h k)
    · trivial
  · rw [Function.update_of_ne hk]
    exact h k

theorem inLoops_of_reachable (h : Reachable t s) (k : Nat) : (s.phase k).InLoops t k :=
  invariant_of_reachable (I := fun s => ∀ k, (s.phase k).InLoops t k) h (inv_start t).inLoops
    (fun _ _ h hstep => inLoops_step hstep h) k

/-- A gateway that has returned does nothing more. -/
theorem returned_step (hstep : Step t s s') {k : Nat} (hk : s.phase k = .returned) :
    s'.phase k = .returned := by
  obtain ⟨g, p', hphase, hgo, _⟩ := goes_of_step hstep
  by_cases hkg : k = g
  · subst hkg
    rw [hk] at hgo
    rcases hgo with hgo | ⟨_, _, _, hclose, _⟩
    · cases hgo
    · cases hclose
  · rw [hphase, Function.update_of_ne hkg, hk]

/-- Who connects goes on to the next stream if there is a place for the socket. -/
theorem connect_step (hstep : Step t s s') {k i stream : Nat} (hk : s.phase k = .connect i stream) :
    s'.phase k = .connect i stream ∨ s'.phase k = .outOfBounds ∨
      s'.phase k = t.afterConnect k i stream ∧ stream < maxStreams := by
  obtain ⟨g, p', hphase, hgo, hplace⟩ := goes_of_step hstep
  by_cases hkg : k = g
  · subst hkg
    have hself : s'.phase k = p' := by rw [hphase, Function.update_self]
    rw [hk] at hgo
    rcases hgo with hgo | ⟨_, _, _, hclose, _⟩
    · rcases hplace i stream hk with hout | hlt
      · exact Or.inr (Or.inl (hself.trans hout))
      · cases hgo with
        | connect => exact Or.inr (Or.inr ⟨hself, hlt⟩)
        | connectOut => exact Or.inr (Or.inl hself)
    · cases hclose
  · exact Or.inl (by rw [hphase, Function.update_of_ne hkg, hk])

/-- With more streams than an array has places, the first gateway leaves its bounds. -/
theorem not_endsIn_of_streams (hcount : 1 < t.clusterCount) (hstreams : maxStreams < t.streams) :
    ¬ EndsIn (Step t) (AllReturned t) (start t) := by
  have hzero := Nat.zero_lt_of_lt hcount
  refine not_endsIn_of_stuck (J := fun s => (∃ stream ≤ maxStreams, s.phase 0 = .connect 1 stream) ∨
    s.phase 0 = .outOfBounds) .refl (Or.inl ⟨0, Nat.zero_le _, ?_⟩) ?_ ?_
  · simp [start, GatewayTable.connectToGateways, hcount, hzero]
  · rintro s s' (⟨stream, hle, hs⟩ | hs) hstep
    · rcases connect_step hstep hs with hsame | hout | ⟨hnext, hlt⟩
      · exact Or.inl ⟨stream, hle, hsame⟩
      · exact Or.inr hout
      · refine Or.inl ⟨stream + 1, hlt, ?_⟩
        rw [hnext, GatewayTable.afterConnect, if_pos (by omega)]
    · obtain ⟨g, p', hphase, hgo, _⟩ := goes_of_step hstep
      by_cases hg : 0 = g
      · subst hg
        rw [hs] at hgo
        rcases hgo with hgo | ⟨_, _, _, hclose, _⟩
        · cases hgo
        · cases hclose
      · exact Or.inr (by rw [hphase, Function.update_of_ne hg, hs])
  · rintro s (⟨stream, _, hs⟩ | hs) hall
    · have hreturned := hall 0 hzero
      rw [hs] at hreturned
      cases hreturned
    · have hreturned := hall 0 hzero
      rw [hs] at hreturned
      cases hreturned

/-- Gateway 2 waits for the connection of gateway 1, which has made it and is done. -/
structure Lost (t : GatewayTable) (s : GatewaySetup) : Prop where
  inLoops : ∀ k, (s.phase k).InLoops t k
  done : s.phase 0 = .returned ∧ s.phase 1 = .returned
  waits : s.phase 2 = .listen 1 0 ∨
    s.phase 2 = .accept 1 0 ∧ ∃ port, s.listener 2 = some ⟨port, []⟩

/-- **A connection that came too early is lost.** -/
theorem exists_lost (hone : t.streams = 1) (hthree : 2 < t.clusterCount) :
    ∃ s, Reachable t s ∧ Lost t s := by
  obtain ⟨s₁, hrun₁, hzero, hall⟩ := exists_waiting hone (Nat.lt_of_succ_lt hthree)
  -- gateway 1 hears from gateway 0, and connects to the others
  obtain ⟨hphase1, hlistener1, hopcode1⟩ := hall 1 (by omega) (by omega)
  obtain ⟨s₂, hrun₂, hphase₂, hlistener₂, _, hopcodes₂⟩ :=
    exists_heard hone hphase1 hlistener1 rfl hopcode1
  obtain ⟨s₃, hrun₃, hphase₃, _, hlistener₃, _, _, hopcodes₃, _⟩ :=
    exists_returned (t := t) (s := s₂) hone (k := 1) hthree
      (by rw [hphase₂]; simp [GatewayTable.connectToGateways, hthree]) (by
        intro j hj hlt
        refine ⟨[⟨0, j, 0, t.rank⟩], ?_⟩
        rw [hlistener₂, Function.update_of_ne (by omega)]
        exact (hall j (by omega) hlt).2.1)
  -- gateway 2 has the listener for gateway 0 open until then, and closes it
  obtain ⟨hphase2, hlistener2, hopcode2⟩ := hall 2 (by omega) hthree
  obtain ⟨s₄, hrun₄, hphase₄, _⟩ :=
    exists_heard (t := t) (s := s₃) hone (g := 2) (c := 0)
      (by rw [hphase₃, Function.update_of_ne (by omega), hphase₂, Function.update_of_ne (by omega),
        hphase2])
      (hlistener₃ 2 [⟨0, 2, 0, t.rank⟩] (by omega) hthree
        (by rw [hlistener₂, Function.update_of_ne (by omega), hlistener2])) rfl
      (hopcodes₃ _ (by rw [hopcodes₂]; exact (List.mem_erase_of_ne (by simp)).mpr hopcode2))
  have hrun := ((hrun₁.trans hrun₂).trans hrun₃).trans hrun₄
  refine ⟨s₄, hrun, inLoops_of_reachable hrun, ⟨?_, ?_⟩, Or.inl ?_⟩
  · rw [hphase₄, hphase₃, hphase₂]
    simpa using hzero
  · rw [hphase₄, hphase₃]
    simp
  · rw [hphase₄, Function.update_self]
    simp [GatewayTable.connectToGateways]

/-- Nobody comes in its place. -/
theorem Lost.step (h : Lost t s) (hstep : Step t s s') : Lost t s' := by
  refine ⟨inLoops_step hstep h.inLoops, ⟨returned_step hstep h.done.1, returned_step hstep h.done.2⟩, ?_⟩
  have hwaits := h.waits
  cases hstep with
  | @listen g c stream hg hclosed =>
      by_cases hg2 : 2 = g
      · subst hg2
        rcases hwaits with hw | ⟨hw, _⟩
        · rw [hw] at hg
          cases hg
          exact Or.inr ⟨by simp [goto], _, by simp [goto, listening]; rfl⟩
        · rw [hw] at hg
          cases hg
      · simpa [goto, listening, hg2] using hwaits
  | @accept g c stream port socket backlog hg hlistener =>
      by_cases hg2 : 2 = g
      · subst hg2
        rcases hwaits with hw | ⟨hw, port', hempty⟩
        · rw [hw] at hg
          cases hg
        · rw [hlistener] at hempty
          cases hempty
      · simpa [goto, listening, hg2] using hwaits
  | @close g c stream socket hg =>
      have hg2 : 2 ≠ g := by
        rintro rfl
        rcases hwaits with hw | ⟨hw, _⟩ <;> rw [hw] at hg <;> cases hg
      unfold checkHost initSocketInfo
      split
      · split <;> simpa [goto, listening, hg2] using hwaits
      · simpa [goto, listening, hg2] using hwaits
  | @await g c socket hg hsocket hopcode =>
      have hg2 : 2 ≠ g := by
        rintro rfl
        rcases hwaits with hw | ⟨hw, _⟩ <;> rw [hw] at hg <;> cases hg
      simpa [goto, hg2] using hwaits
  | @connect g i stream backlog hg hlistener =>
      have hin := h.inLoops g
      rw [hg] at hin
      have hi2 : 2 ≠ i := by
        rintro rfl
        have hlt := hin.1
        rcases (show g = 0 ∨ g = 1 by omega) with rfl | rfl
        · rw [h.done.1] at hg
          cases hg
        · rw [h.done.2] at hg
          cases hg
      have hg2 : 2 ≠ g := by
        rintro rfl
        rcases hwaits with hw | ⟨hw, _⟩ <;> rw [hw] at hg <;> cases hg
      unfold initSocketInfo
      split <;> simpa [goto, listening, hg2, hi2] using hwaits
  | @ready g i socket hg hsocket =>
      have hg2 : 2 ≠ g := by
        rintro rfl
        rcases hwaits with hw | ⟨hw, _⟩ <;> rw [hw] at hg <;> cases hg
      simpa [goto, hg2] using hwaits

/-- With one stream and three clusters, gateway 2 may wait for ever. -/
theorem not_endsIn_of_one (hone : t.streams = 1) (hthree : 2 < t.clusterCount) :
    ¬ EndsIn (Step t) (AllReturned t) (start t) := by
  obtain ⟨s, hreach, hlost⟩ := exists_lost hone hthree
  refine not_endsIn_of_stuck hreach hlost (fun _ _ => Lost.step) ?_
  intro s h hall
  have hreturned := hall 2 hthree
  rcases h.waits with hw | ⟨hw, _⟩ <;> rw [hw] at hreturned <;> cases hreturned

/-- One cluster has nobody to connect to. -/
theorem endsIn_of_one_cluster (hone : t.clusterCount ≤ 1) :
    EndsIn (Step t) (AllReturned t) (start t) := by
  refine endsIn_of_measure (I := fun s => ∀ k, s.phase k = .returned) (μ := fun _ => 0) ?_ ?_
    fun s hs => Or.inl fun k _ => hs k
  · intro k
    simp only [start, GatewayTable.connectToGateways]
    split
    · rw [if_neg (by omega), if_neg (by omega)]
    · rfl
  · intro s s' hs hstep
    obtain ⟨g, p', _, hgo, _⟩ := goes_of_step hstep
    rw [hs g] at hgo
    rcases hgo with hgo | ⟨_, _, _, hclose, _⟩
    · cases hgo
    · cases hclose

end DeadEnds

/-- **When the set-up always comes to its end.**  No run of the gateways goes on for ever, and
each one ends with all gateways returned, exactly when there is one cluster only, or when the
sockets of a connection have places and a connection has two streams or more or there are two
clusters. -/
theorem endsIn_iff_suffices (t : GatewayTable) :
    EndsIn (Step t) (AllReturned t) (start t) ↔ Suffices t := by
  constructor
  · intro h
    by_contra hnot
    have hpos := t.streams_pos
    unfold Suffices at hnot
    by_cases hstreams : maxStreams < t.streams
    · exact not_endsIn_of_streams (by omega) hstreams h
    · exact not_endsIn_of_one (by omega) (by omega) h
  · rintro (hone | ⟨hstreams, hroom⟩)
    · exact endsIn_of_one_cluster hone
    · exact endsIn_of_room hstreams hroom

end GatewaySetup

end EsalsaMpi
