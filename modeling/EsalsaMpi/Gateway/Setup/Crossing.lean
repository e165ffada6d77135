import EsalsaMpi.Gateway.Setup.Safety
import Mathlib.Data.List.Basic

/-!
# Connections that cross

With one stream, a gateway can connect while the listener is still open for the
connection before its own.  Its connection is lost when that listener is closed,
and the gateway does not notice.  When there is a fourth gateway, the next one to
connect finds the listener that was meant for the lost connection: the gateway that
accepts either finds an unexpected host, or takes the one gateway for the other.

So the set-up pairs the gateways in all runs exactly when there are two streams or
more, or at most three clusters (`paired_iff`).
-/

namespace EsalsaMpi

open SetupPhase

namespace GatewaySetup

section Parts

variable {t : GatewayTable} {s : GatewaySetup}

/-- All gateways after the first open their first listener. -/
theorem exists_listening (t : GatewayTable) (m : Nat) (hm : m < t.clusterCount) :
    ∃ s, Reachable t s ∧ s.phase 0 = t.connectToGateways 0 0 ∧
      (∀ i, 0 < i → i ≤ m → s.phase i = .accept 0 0 ∧ s.listener i = some ⟨t.port i + 0, []⟩) ∧
      ∀ i, m < i → i < t.clusterCount → s.phase i = .listen 0 0 ∧ s.listener i = none := by
  induction m with
  | zero =>
      refine ⟨start t, Relation.ReflTransGen.refl, if_pos hm, by omega, ?_⟩
      intro i hi hlt
      exact ⟨(start_phase t hlt).resolve_right fun hzero => by omega, rfl⟩
  | succ m ih =>
      obtain ⟨s, hrun, hzero, hopen, hclosed⟩ := ih (Nat.lt_of_succ_lt hm)
      obtain ⟨hphase, hnone⟩ := hclosed (m + 1) (Nat.lt_succ_self m) hm
      refine ⟨_, hrun.tail (Step.listen hphase hnone), ?_, ?_, ?_⟩
      · simp [goto, listening, hzero]
      · intro i hpos hi
        by_cases hi' : i = m + 1
        · subst hi'
          simp [goto, listening]
        · simp only [goto, listening, Function.update_of_ne hi']
          exact hopen i hpos (by omega)
      · intro i hi hlt
        have hne : i ≠ m + 1 := by omega
        simp only [goto, listening, Function.update_of_ne hne]
        exact hclosed i (by omega) hlt

/-- Gateway `k` connects to gateway `i`. -/
theorem exists_connect (hone : t.streams = 1) {k i : Nat} {b : List TcpConnection}
    (hphase : s.phase k = .connect i 0) (hb : s.listener i = some ⟨t.port i + 0, b⟩) :
    ∃ s', Step t s s' ∧ s'.phase = Function.update s.phase k
        (if i + 1 < t.clusterCount then .connect (i + 1) 0 else .ready (k + 1)) ∧
      s'.listener = Function.update s.listener i (some ⟨t.port i + 0, b ++ [⟨k, i, 0, t.rank⟩]⟩) ∧
      s'.sockets = Function.update s.sockets (k, i, 0) (some ⟨k, i, 0, t.rank⟩) ∧
      s'.opcodes = s.opcodes := by
  have hnext : t.afterConnect k i 0 =
      if i + 1 < t.clusterCount then .connect (i + 1) 0 else .ready (k + 1) :=
    if_neg (by omega)
  refine ⟨_, Step.connect hphase hb, ?_⟩
  rw [hnext, initSocketInfo, if_pos (by decide)]
  exact ⟨rfl, rfl, rfl, rfl⟩

/-- It connects to that one and those after it, which all have listeners open. -/
theorem exists_connected (hone : t.streams = 1) {k i : Nat} (d : Nat) (hd : i + d = t.clusterCount)
    (hphase : s.phase k = if i < t.clusterCount then .connect i 0 else .ready (k + 1))
    (hopen : ∀ j, i ≤ j → j < t.clusterCount → ∃ b, s.listener j = some ⟨t.port j + 0, b⟩) :
    ∃ s', Relation.ReflTransGen (Step t) s s' ∧
      s'.phase = Function.update s.phase k (.ready (k + 1)) ∧ s'.opcodes = s.opcodes ∧
      (∀ j, j < i → s'.listener j = s.listener j) ∧
      (∀ j b, i ≤ j → j < t.clusterCount → s.listener j = some ⟨t.port j + 0, b⟩ →
        s'.listener j = some ⟨t.port j + 0, b ++ [⟨k, j, 0, t.rank⟩]⟩) ∧
      (∀ j, i ≤ j → j < t.clusterCount → s'.sockets (k, j, 0) = some ⟨k, j, 0, t.rank⟩) ∧
      ∀ key, ¬ (key.1 = k ∧ i ≤ key.2.1) → s'.sockets key = s.sockets key := by
  induction d generalizing s i with
  | zero =>
      rw [if_neg (by omega)] at hphase
      refine ⟨s, Relation.ReflTransGen.refl, ?_, rfl, fun _ _ => rfl, by omega, by omega,
        fun _ _ => rfl⟩
      rw [← hphase, Function.update_eq_self]
  | succ d ih =>
      rw [if_pos (by omega)] at hphase
      obtain ⟨b, hb⟩ := hopen i (Nat.le_refl i) (by omega)
      obtain ⟨s₁, hstep, hphase₁, hlistener₁, hsockets₁, hopcodes₁⟩ := exists_connect hone hphase hb
      have hlater : ∀ j, i + 1 ≤ j → s₁.listener j = s.listener j := by
        intro j hj
        rw [hlistener₁, Function.update_of_ne (by omega)]
      obtain ⟨s₂, hrun, hphase₂, hopcodes₂, hbefore, hafter, hmine, hothers⟩ :=
        @ih s₁ (i + 1) (by omega) (by rw [hphase₁, Function.update_self])
          (fun j hj hlt => by rw [hlater j hj]; exact hopen j (by omega) hlt)
      refine ⟨s₂, hrun.head hstep, ?_, hopcodes₂.trans hopcodes₁, ?_, ?_, ?_, ?_⟩
      · rw [hphase₂, hphase₁, Function.update_idem]
      · intro j hj
        rw [hbefore j (by omega), hlistener₁, Function.update_of_ne (by omega)]
      · intro j b' hj hlt hb'
        rcases Nat.eq_or_lt_of_le hj with rfl | hj
        · rw [hb] at hb'
          cases hb'
          rw [hbefore i (by omega), hlistener₁, Function.update_self]
        · exact hafter j b' hj hlt (by rw [hlater j hj, hb'])
      · intro j hj hlt
        rcases Nat.eq_or_lt_of_le hj with rfl | hj
        · rw [hothers _ (by simp), hsockets₁, Function.update_self]
        · exact hmine j hj hlt
      · intro key hkey
        rw [hothers key (by omega), hsockets₁, Function.update_of_ne]
        rintro rfl
        exact hkey ⟨rfl, Nat.le_refl i⟩

/-- And it tells them. -/
theorem exists_told {k i : Nat} (d : Nat) (hd : i + d = t.clusterCount)
    (hphase : s.phase k = if i < t.clusterCount then .ready i else .returned)
    (hsockets : ∀ j, i ≤ j → j < t.clusterCount → s.sockets (k, j, 0) = some ⟨k, j, 0, t.rank⟩) :
    ∃ s', Relation.ReflTransGen (Step t) s s' ∧
      s'.phase = Function.update s.phase k .returned ∧ s'.listener = s.listener ∧
      s'.sockets = s.sockets ∧ (∀ socket ∈ s.opcodes, socket ∈ s'.opcodes) ∧
      ∀ j, i ≤ j → j < t.clusterCount → ⟨k, j, 0, t.rank⟩ ∈ s'.opcodes := by
  induction d generalizing s i with
  | zero =>
      rw [if_neg (by omega)] at hphase
      refine ⟨s, Relation.ReflTransGen.refl, ?_, rfl, rfl, fun _ => id, by omega⟩
      rw [← hphase, Function.update_eq_self]
  | succ d ih =>
      rw [if_pos (by omega)] at hphase
      have hstep := Step.ready (t := t) hphase (hsockets i (Nat.le_refl i) (by omega))
      obtain ⟨s₂, hrun, hphase₂, hlistener₂, hsockets₂, hkept, hmine⟩ :=
        @ih ({ s with opcodes := ⟨k, i, 0, t.rank⟩ :: s.opcodes }.goto k (t.afterReady i)) (i + 1)
          (by omega) (Function.update_self k _ s.phase) (fun j hj hlt => hsockets j (by omega) hlt)
      refine ⟨s₂, hrun.head hstep, ?_, hlistener₂, hsockets₂,
        fun socket hs => hkept socket (List.mem_cons_of_mem _ hs), ?_⟩
      · rw [hphase₂]
        exact Function.update_idem _ _ _
      · intro j hj hlt
        rcases Nat.eq_or_lt_of_le hj with rfl | hj
        · exact hkept _ List.mem_cons_self
        · exact hmine j hj hlt

/-- Gateway `k` does all that is left to do for it. -/
theorem exists_returned (hone : t.streams = 1) {k : Nat} (hk : k + 1 < t.clusterCount)
    (hphase : s.phase k = .connect (k + 1) 0)
    (hopen : ∀ j, k < j → j < t.clusterCount → ∃ b, s.listener j = some ⟨t.port j + 0, b⟩) :
    ∃ s', Relation.ReflTransGen (Step t) s s' ∧
      s'.phase = Function.update s.phase k .returned ∧
      (∀ j, j ≤ k → s'.listener j = s.listener j) ∧
      (∀ j b, k < j → j < t.clusterCount → s.listener j = some ⟨t.port j + 0, b⟩ →
        s'.listener j = some ⟨t.port j + 0, b ++ [⟨k, j, 0, t.rank⟩]⟩) ∧
      (∀ j, k < j → j < t.clusterCount → s'.sockets (k, j, 0) = some ⟨k, j, 0, t.rank⟩) ∧
      (∀ key, key.1 ≠ k → s'.sockets key = s.sockets key) ∧
      (∀ socket ∈ s.opcodes, socket ∈ s'.opcodes) ∧
      ∀ j, k < j → j < t.clusterCount → ⟨k, j, 0, t.rank⟩ ∈ s'.opcodes := by
  obtain ⟨d, hd⟩ : ∃ d, k + 1 + d = t.clusterCount := ⟨t.clusterCount - (k + 1), by omega⟩
  obtain ⟨s₁, hrun₁, hphase₁, hopcodes₁, hbefore₁, hafter₁, hmine₁, hothers₁⟩ :=
    exists_connected hone d hd (by rw [hphase, if_pos hk]) hopen
  obtain ⟨s₂, hrun₂, hphase₂, hlistener₂, hsockets₂, hkept₂, hmine₂⟩ :=
    exists_told (k := k) d hd (by rw [hphase₁, Function.update_self, if_pos hk]) hmine₁
  refine ⟨s₂, hrun₁.trans hrun₂, ?_, ?_, ?_, ?_, ?_, ?_, hmine₂⟩
  · rw [hphase₂, hphase₁, Function.update_idem]
  · intro j hj
    rw [hlistener₂, hbefore₁ j (by omega)]
  · intro j b hj hlt hb
    rw [hlistener₂, hafter₁ j b hj hlt hb]
  · intro j hj hlt
    rw [hsockets₂, hmine₁ j hj hlt]
  · intro key hkey
    rw [hsockets₂, hothers₁ key fun h => hkey h.1]
  · intro socket hs
    exact hkept₂ socket (hopcodes₁ ▸ hs)

/-- A gateway accepts, keeps the socket, and hears. -/
theorem exists_heard (hone : t.streams = 1) {g c : Nat} {socket : TcpConnection} {port : Nat}
    {b : List TcpConnection} (hphase : s.phase g = .accept c 0)
    (hlistener : s.listener g = some ⟨port, socket :: b⟩)
    (hhost : t.ipv4 c = t.ipv4 socket.client) (hopcode : socket ∈ s.opcodes) :
    ∃ s', Relation.ReflTransGen (Step t) s s' ∧
      s'.phase = Function.update s.phase g (t.connectToGateways g (c + 1)) ∧
      s'.listener = Function.update s.listener g none ∧
      s'.sockets = Function.update s.sockets (g, c, 0) (some socket) ∧
      s'.opcodes = s.opcodes.erase socket := by
  have haccept := Relation.ReflTransGen.single (Step.accept (t := t) hphase hlistener)
  have hclose := haccept.tail (Step.close (phase_goto _ g _))
  rw [checkHost, if_pos hhost, initSocketInfo, if_pos (by decide),
    show t.afterAccept c 0 = .await c from if_neg (by omega)] at hclose
  have hawait := hclose.tail (Step.await (phase_goto _ g _) (Function.update_self _ _ _) hopcode)
  refine ⟨_, hawait, ?_, ?_, rfl, rfl⟩
  · simp [goto, listening]
  · simp [goto, listening]

end Parts

/-! ## The run -/

section Crossing

variable {t : GatewayTable}

/-- Gateway 0 is done, and its connections wait. -/
theorem exists_waiting (hone : t.streams = 1) (htwo : 1 < t.clusterCount) :
    ∃ s, Reachable t s ∧ s.phase 0 = .returned ∧
      ∀ i, 0 < i → i < t.clusterCount → s.phase i = .accept 0 0 ∧
        s.listener i = some ⟨t.port i + 0, [⟨0, i, 0, t.rank⟩]⟩ ∧
        ⟨0, i, 0, t.rank⟩ ∈ s.opcodes := by
  obtain ⟨s₁, hrun₁, hzero, hopen, _⟩ := exists_listening t (t.clusterCount - 1) (by omega)
  have hconnect : t.connectToGateways 0 0 = .connect 1 0 := by
    rw [GatewayTable.connectToGateways, if_neg (Nat.lt_irrefl 0), if_pos (by omega)]
  obtain ⟨s₂, hrun₂, hphase₂, _, hlistener₂, _, _, _, hopcodes₂⟩ :=
    exists_returned hone (k := 0) (by omega) (hzero.trans hconnect)
      (fun j hj hlt => ⟨_, (hopen j hj (by omega)).2⟩)
  refine ⟨s₂, hrun₁.trans hrun₂, by rw [hphase₂, Function.update_self],
    fun i hpos hi => ⟨?_, ?_, hopcodes₂ i hpos hi⟩⟩
  · rw [hphase₂, Function.update_of_ne (by omega)]
    exact (hopen i hpos (by omega)).1
  · exact hlistener₂ i [] hpos hi (hopen i hpos (by omega)).2

end Crossing

end GatewaySetup

end EsalsaMpi
