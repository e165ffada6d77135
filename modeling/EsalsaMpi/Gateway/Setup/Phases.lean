import EsalsaMpi.Gateway.Setup.OneRank

/-!
# How far a gateway is

The place of a gateway in `connect_gateways` tells what it has done: which
listeners it has opened, which connections it has accepted and kept, whom it has
heard, to whom it has connected, and whom it has told.  `Goes` lists how it goes
on: what has been done stays done (`Goes.advances`), and what is newly done is what
the step was about.
-/

namespace EsalsaMpi

namespace SetupPhase

/-! ## What has been done -/

/-- The listener for stream `s` of gateway `c` has been opened. -/
def Opened (c s : Nat) : SetupPhase → Prop
  | .listen c' s' => c < c' ∨ c = c' ∧ s < s'
  | .accept c' s' => c < c' ∨ c = c' ∧ s ≤ s'
  | .close c' s' _ => c < c' ∨ c = c' ∧ s ≤ s'
  | .await c' => c ≤ c'
  | _ => True

/-- Its connection has been accepted. -/
def Accepted (c s : Nat) : SetupPhase → Prop
  | .listen c' s' => c < c' ∨ c = c' ∧ s < s'
  | .accept c' s' => c < c' ∨ c = c' ∧ s < s'
  | .close c' s' _ => c < c' ∨ c = c' ∧ s ≤ s'
  | .await c' => c ≤ c'
  | _ => True

/-- And its socket has been kept. -/
def Kept (c s : Nat) : SetupPhase → Prop
  | .listen c' s' => c < c' ∨ c = c' ∧ s < s'
  | .accept c' s' => c < c' ∨ c = c' ∧ s < s'
  | .close c' s' _ => c < c' ∨ c = c' ∧ s < s'
  | .await c' => c ≤ c'
  | .unexpectedHost _ => False
  | .outOfBounds => False
  | _ => True

/-- The opcode of gateway `c` has been received. -/
def Heard (c : Nat) : SetupPhase → Prop
  | .listen c' _ => c < c'
  | .accept c' _ => c < c'
  | .close c' _ _ => c < c'
  | .await c' => c < c'
  | .unexpectedHost _ => False
  | .outOfBounds => False
  | _ => True

/-- The connection for stream `s` to gateway `i` has been made, and its socket kept. -/
def Made (i s : Nat) : SetupPhase → Prop
  | .connect i' s' => i < i' ∨ i = i' ∧ s < s'
  | .ready _ => True
  | .returned => True
  | _ => False

/-- The opcode has been sent to gateway `i`. -/
def Told (i : Nat) : SetupPhase → Prop
  | .ready i' => i < i'
  | .returned => True
  | _ => False

/-- The counts are within the bounds of the loops of gateway `k`. -/
def InLoops (t : GatewayTable) (k : Nat) : SetupPhase → Prop
  | .listen c s => k < t.clusterCount ∧ c < k ∧ s < t.streams
  | .accept c s => k < t.clusterCount ∧ c < k ∧ s < t.streams
  | .close c s _ => k < t.clusterCount ∧ c < k ∧ s < t.streams
  | .await c => k < t.clusterCount ∧ c < k
  | .connect i s => k < i ∧ i < t.clusterCount ∧ s < t.streams
  | .ready i => k < i ∧ i < t.clusterCount
  | _ => True

/-- How gateway `k` goes on. -/
inductive Goes (t : GatewayTable) (k : Nat) : SetupPhase → SetupPhase → Prop where
  | listen (c s : Nat) : Goes t k (.listen c s) (.accept c s)
  | accept (c s : Nat) (socket : TcpConnection) : Goes t k (.accept c s) (.close c s socket)
  | close (c s : Nat) (socket : TcpConnection) : Goes t k (.close c s socket) (t.afterAccept c s)
  | closeOut (c s : Nat) (socket : TcpConnection) : Goes t k (.close c s socket) .outOfBounds
  | await (c : Nat) : Goes t k (.await c) (t.connectToGateways k (c + 1))
  | connect (i s : Nat) : Goes t k (.connect i s) (t.afterConnect k i s)
  | connectOut (i s : Nat) : Goes t k (.connect i s) .outOfBounds
  | ready (i : Nat) : Goes t k (.ready i) (t.afterReady i)

/-- In phase `p'` everything has been done that has been done in phase `p`. -/
structure Advances (p p' : SetupPhase) : Prop where
  opened : ∀ c s, p.Opened c s → p'.Opened c s
  accepted : ∀ c s, p.Accepted c s → p'.Accepted c s
  made : ∀ i s, p.Made i s ∨ p = .outOfBounds → p'.Made i s ∨ p' = .outOfBounds
  told : ∀ i, p.Told i → p'.Told i

theorem Advances.refl (p : SetupPhase) : Advances p p :=
  ⟨fun _ _ => id, fun _ _ => id, fun _ _ => id, fun _ => id⟩

section Goes

variable {t : GatewayTable} {k c i s : Nat} {p p' : SetupPhase}

/-- What a gateway has done stays done. -/
theorem Goes.advances (h : Goes t k p p') (hin : p.InLoops t k) : Advances p p' := by
  cases h with
  | listen c s =>
      constructor <;> intros <;> simp_all [Opened, Accepted, Made, Told]
      omega
  | accept c s socket =>
      constructor <;> intros <;> simp_all [Opened, Accepted, Made, Told]
      omega
  | close c s socket =>
      unfold GatewayTable.afterAccept
      split <;> constructor <;> intros <;> simp_all [Opened, Accepted, Made, Told] <;> omega
  | closeOut c s socket =>
      constructor <;> intros <;> simp_all [Opened, Accepted, Made, Told]
  | await c =>
      unfold GatewayTable.connectToGateways
      split
      · -- the sockets for cluster `c + 1` come next, and those up to `c` are behind it
        exact {
          opened := fun c' s' h => Or.inl (Nat.lt_succ_of_le h)
          accepted := fun c' s' h => Or.inl (Nat.lt_succ_of_le h)
          made := fun i s h => by simp [Made] at h
          told := fun i h => by simp [Told] at h }
      · split <;> constructor <;> intros <;> simp_all [Opened, Accepted, Made, Told]
  | connect i s =>
      unfold GatewayTable.afterConnect
      split
      · constructor <;> intros <;> simp_all [Opened, Accepted, Made, Told]
        omega
      · split <;> constructor <;> intros <;> simp_all [Opened, Accepted, Made, Told]
        omega
  | connectOut i s =>
      constructor <;> intros <;> simp_all [Opened, Accepted, Made, Told]
  | ready i =>
      unfold GatewayTable.afterReady
      split <;> constructor <;> intros <;> simp_all [Opened, Accepted, Made, Told]
      omega

theorem inLoops_connectToGateways (hk : k < t.clusterCount) :
    (t.connectToGateways k c).InLoops t k := by
  unfold GatewayTable.connectToGateways
  split
  · next hc => exact ⟨hk, hc, t.streams_pos⟩
  · split
    · next hk' => exact ⟨Nat.lt_succ_self k, hk', t.streams_pos⟩
    · trivial

/-- It stays within its loops. -/
theorem Goes.inLoops (h : Goes t k p p') (hin : p.InLoops t k) : p'.InLoops t k := by
  cases h with
  | listen c s => exact hin
  | accept c s socket => exact hin
  | close c s socket =>
      unfold GatewayTable.afterAccept
      split
      · next hs => exact ⟨hin.1, hin.2.1, hs⟩
      · exact ⟨hin.1, hin.2.1⟩
  | closeOut c s socket => trivial
  | await c => exact inLoops_connectToGateways hin.1
  | connect i s =>
      obtain ⟨hki, hi, hs⟩ := hin
      unfold GatewayTable.afterConnect
      split
      · next hs' => exact ⟨hki, hi, hs'⟩
      · split
        · next hi' => exact ⟨Nat.lt_succ_of_lt hki, hi', t.streams_pos⟩
        · exact ⟨Nat.lt_succ_self k, Nat.lt_of_le_of_lt hki hi⟩
  | connectOut i s => trivial
  | ready i =>
      unfold GatewayTable.afterReady
      split
      · next hi => exact ⟨Nat.lt_succ_of_lt hin.1, hi⟩
      · trivial

/-- What a gateway has newly kept. -/
theorem Goes.kept (h : Goes t k p p') (hc : c < k) (hs : s < t.streams) (hkept : p'.Kept c s) : p.Kept c s ∨ ∃ socket, p = .close c s socket := by
  cases h with
  | listen c' s' => exact Or.inl hkept
  | accept c' s' socket => exact Or.inl hkept
  | close c' s' socket =>
      unfold GatewayTable.afterAccept at hkept
      split at hkept <;> simp only [Kept] at hkept ⊢
      · rcases hkept with hlt | ⟨rfl, hlt⟩
        · exact Or.inl (Or.inl hlt)
        · rcases Nat.lt_succ_iff_lt_or_eq.mp hlt with hlt | rfl
          · exact Or.inl (Or.inr ⟨rfl, hlt⟩)
          · exact Or.inr ⟨socket, rfl⟩
      · rcases Nat.lt_or_eq_of_le hkept with hlt | rfl
        · exact Or.inl (Or.inl hlt)
        · rcases Nat.lt_or_ge s s' with hlt | hge
          · exact Or.inl (Or.inr ⟨rfl, hlt⟩)
          · exact Or.inr ⟨socket, by rw [show s' = s by omega]⟩
  | closeOut c' s' socket => cases hkept
  | await c' =>
      left
      unfold GatewayTable.connectToGateways at hkept
      simp only [Kept]
      split at hkept
      · simp only [Kept] at hkept
        omega
      · omega
  | connect i s => exact Or.inl trivial
  | connectOut i s => cases hkept
  | ready i => exact Or.inl trivial

/-- What a gateway has newly heard. -/
theorem Goes.heard (h : Goes t k p p') (hc : c < k) (hheard : p'.Heard c) :
    p.Heard c ∨ p = .await c := by
  cases h with
  | listen c' s' => exact Or.inl hheard
  | accept c' s' socket => exact Or.inl hheard
  | close c' s' socket =>
      unfold GatewayTable.afterAccept at hheard
      split at hheard <;> exact Or.inl hheard
  | closeOut c' s' socket => cases hheard
  | await c' =>
      have hle : c ≤ c' := by
        unfold GatewayTable.connectToGateways at hheard
        split at hheard
        · exact Nat.le_of_lt_succ hheard
        · omega
      rcases Nat.lt_or_eq_of_le hle with hlt | rfl
      · exact Or.inl hlt
      · exact Or.inr rfl
  | connect i s => exact Or.inl trivial
  | connectOut i s => cases hheard
  | ready i => exact Or.inl trivial

/-- What a gateway has newly made. -/
theorem Goes.made (h : Goes t k p p') (hin : p.InLoops t k) (hk : k < i)
    (hi : i < t.clusterCount) (hs : s < t.streams) (hmade : p'.Made i s) : p.Made i s ∨ p = .connect i s := by
  cases h with
  | listen c' s' => cases hmade
  | accept c' s' socket => cases hmade
  | close c' s' socket =>
      unfold GatewayTable.afterAccept at hmade
      split at hmade <;> cases hmade
  | closeOut c' s' socket => cases hmade
  | await c' =>
      unfold GatewayTable.connectToGateways at hmade
      split at hmade
      · cases hmade
      · split at hmade
        · simp only [Made] at hmade
          omega
        · omega
  | connect i' s' =>
      have hle : i < i' ∨ i = i' ∧ s ≤ s' := by
        unfold GatewayTable.afterConnect at hmade
        split at hmade
        · simp only [Made] at hmade
          omega
        · split at hmade
          · simp only [Made] at hmade
            omega
          · omega
      rcases hle with hlt | ⟨rfl, hle⟩
      · exact Or.inl (Or.inl hlt)
      · rcases Nat.lt_or_eq_of_le hle with hlt | rfl
        · exact Or.inl (Or.inr ⟨rfl, hlt⟩)
        · exact Or.inr rfl
  | connectOut i s => cases hmade
  | ready i => exact Or.inl trivial

/-- A gateway that goes on finds no unexpected host. -/
theorem Goes.expected (h : Goes t k p p') (crank : Nat) : p' ≠ .unexpectedHost crank := by
  cases h with
  | close c s socket => unfold GatewayTable.afterAccept; split <;> nofun
  | await c =>
      unfold GatewayTable.connectToGateways
      split
      · nofun
      · split <;> nofun
  | connect i s =>
      unfold GatewayTable.afterConnect
      split
      · nofun
      · split <;> nofun
  | ready i => unfold GatewayTable.afterReady; split <;> nofun
  | _ => nofun

end Goes

end SetupPhase

end EsalsaMpi
