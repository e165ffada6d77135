import EsalsaMpi.Gateway.Setup.Sharing

/-!
# When the set-up pairs the gateways

Two things go wrong in the set-up.  One is that a gateway connects too early, while the
one that it connects to has its listener open for another; it takes one stream only and
four clusters (`paired_iff`).  The other is that it gets to another gateway of the host,
with the same port; and a gateway may find its port taken.

Where the listeners of a host all have ports of their own (`Apart`), the gateways of
each rank are by themselves, side by side with those of the others (`sideBySide`).
-/

namespace EsalsaMpi

open Endings SetupPhase

namespace GatewayAddresses

/-- Gateway `g` opens listeners; those of the first cluster do not. -/
def Listens (a : GatewayAddresses) (g : Nat × Nat) : Prop :=
  0 < g.1 ∧ g.1 < a.clusterCount ∧ g.2 < a.gatewayCount

/-- **Every listener has a port of its own** on its host. -/
structure Apart (a : GatewayAddresses) : Prop where
  inRange : ∀ g, a.Listens g → 0 < a.port g ∧ a.port g + a.streams ≤ 65536
  distinct : ∀ g g', a.Listens g → a.Listens g' → g ≠ g' → a.ipv4 g = a.ipv4 g' →
    a.port g + a.streams ≤ a.port g' ∨ a.port g' + a.streams ≤ a.port g

variable {a : GatewayAddresses} {g : Nat × Nat} {stream : Nat}

theorem Apart.streamPort_eq (h : a.Apart) (hg : a.Listens g) (hstream : stream < a.streams) :
    a.streamPort g stream = a.port g + stream := by
  obtain ⟨_, hle⟩ := h.inRange g hg
  exact Nat.mod_eq_of_lt (by omega)

end GatewayAddresses

namespace AllGateways

variable {a : GatewayAddresses} {s s' : AllGateways} {g g' : Nat × Nat} {stream : Nat}

/-! ## Where every `connect` gets to the right listener -/

@[simp] theorem listener_initSocketInfo (i : Nat) (socket : TcpConnection) (next : SetupPhase) :
    (s.initSocketInfo g i stream socket next).listener = s.listener := by
  unfold initSocketInfo
  split <;> rfl

@[simp] theorem bound_initSocketInfo (i : Nat) (socket : TcpConnection) (next : SetupPhase) :
    (s.initSocketInfo g i stream socket next).bound = s.bound := by
  unfold initSocketInfo
  split <;> rfl

@[simp] theorem listener_checkHost (crank : Nat) (socket : TcpConnection) :
    (s.checkHost a g crank stream socket).listener = s.listener := by
  unfold checkHost
  split
  · exact listener_initSocketInfo ..
  · rfl

@[simp] theorem bound_checkHost (crank : Nat) (socket : TcpConnection) :
    (s.checkHost a g crank stream socket).bound = s.bound := by
  unfold checkHost
  split
  · exact bound_initSocketInfo ..
  · rfl

/-- No `bind` has failed, and every listener has the port that it is for. -/
structure Undisturbed (a : GatewayAddresses) (s : AllGateways) : Prop where
  separate : Separate a s
  failed : s.failed = []
  bound : ∀ g l, s.listener g = some l → s.bound g = l.port

theorem undisturbed_start (a : GatewayAddresses) : Undisturbed a (start a) where
  separate := separate_start a
  failed := rfl
  bound _ _ hl := nomatch hl

/-- What has a listener, and which port this has. -/
theorem Undisturbed.listens (h : Undisturbed a s) {l : Listener} (hl : s.listener g = some l) :
    a.Listens g ∧ ∃ stream < a.streams, s.bound g = a.port g + stream ∧
      l.port = a.port g + stream := by
  obtain ⟨k, r⟩ := g
  have hr : r < a.gatewayCount := by
    by_contra hle
    exact nomatch hl.symm.trans (h.separate.idle k r (by omega)).2
  have htidy := GatewaySetup.tidy_of_reachable (h.separate.reachable r hr)
  obtain ⟨c, stream, hport, hat⟩ := htidy.listening k l hl
  have hin := htidy.inLoops k
  have hloops : k < a.clusterCount ∧ c < k ∧ stream < a.streams := by
    rcases hat with hat | ⟨_, hat⟩ <;> rw [hat] at hin <;> exact hin
  exact ⟨⟨by omega, hloops.1, hr⟩, stream, hloops.2.2, (h.bound _ l hl).trans hport, hport⟩

/-- A gateway that can connect or listen listens for this stream. -/
theorem Undisturbed.inLoops (h : Undisturbed a s) {p : SetupPhase} (hphase : s.phase g = p)
    (hne : p ≠ .returned) : p.InLoops (a.ofRank g.2) g.1 ∧ g.2 < a.gatewayCount := by
  obtain ⟨hr, htidy⟩ := h.separate.tidy (k := g.1) (r := g.2) hphase hne
  exact ⟨hphase ▸ htidy.inLoops g.1, hr⟩

/-- The port of a stream leads to the listener of the gateway. -/
theorem Undisturbed.eq_of_bound (h : Undisturbed a s) (hapart : a.Apart) (hg : a.Listens g)
    (hstream : stream < a.streams) {l : Listener} (hl : s.listener g' = some l)
    (hhost : a.ipv4 g' = a.ipv4 g) (hport : s.bound g' = a.streamPort g stream) :
    g' = g ∧ l.port = a.port g' + stream := by
  obtain ⟨hg', stream', hstream', hbound, hlport⟩ := h.listens hl
  rw [hapart.streamPort_eq hg hstream, hbound] at hport
  have heq : g' = g := by
    by_contra hne
    have := hapart.distinct g' g hg' hg hne hhost
    omega
  subst heq
  exact ⟨rfl, hlport.trans hport⟩

/-- **Who connects gets to the right listener.** -/
theorem Undisturbed.aimed (h : Undisturbed a s) (hapart : a.Apart) : s.Aimed a := by
  intro g g' i stream l hphase hl hhost hport
  obtain ⟨hin, hr⟩ := h.inLoops hphase (by rintro ⟨⟩)
  obtain ⟨hlt, hi, hstream⟩ := hin
  exact h.eq_of_bound (g := (i, g.2)) hapart ⟨Nat.zero_lt_of_lt hlt, hi, hr⟩ hstream hl hhost
    hport

/-- **Who listens finds its port free.** -/
theorem Undisturbed.not_taken (h : Undisturbed a s) (hapart : a.Apart) {crank : Nat}
    (hphase : s.phase g = .listen crank stream) : ¬ s.Taken a g (a.streamPort g stream) := by
  rintro ⟨g', hl, hhost, hport⟩
  obtain ⟨hin, hr⟩ := h.inLoops hphase (by rintro ⟨⟩)
  obtain ⟨hi, hlt, hstream⟩ := hin
  obtain ⟨l, hl⟩ := Option.ne_none_iff_exists'.mp hl
  obtain ⟨rfl, _⟩ := h.eq_of_bound hapart ⟨by omega, hi, hr⟩ hstream hl hhost hport
  -- the gateway itself has none
  have htidy := GatewaySetup.tidy_of_reachable (h.separate.reachable g'.2 hr)
  have hnone := htidy.listener_eq_none (g := g'.1) (by simp [ofRank, hphase])
    (by simp [ofRank, hphase])
  exact Option.some_ne_none l (hl.symm.trans hnone)

/-- A listener that changes keeps its port. -/
theorem Undisturbed.bound_listening (h : Undisturbed a s) {l l' : Listener}
    {backlog : List TcpConnection} (hl : s.listener g = some l)
    (hl' : (s.listening g (some ⟨l.port, backlog⟩)).listener g' = some l') :
    s.bound g' = l'.port := by
  by_cases hg : g' = g
  · subst hg
    simp only [listening, Function.update_self, Option.some.injEq] at hl'
    rw [← hl', h.bound g' l hl]
  · exact h.bound g' l' (by simpa [listening, hg] using hl')

/-- **A step disturbs nothing.** -/
theorem Undisturbed.step (h : Undisturbed a s) (hapart : a.Apart) (hstep : Step a s s') :
    Undisturbed a s' where
  separate := h.separate.step (h.aimed hapart) hstep
  failed := by
    rcases h.separate.moves (h.aimed hapart) hstep with
      ⟨g, crank, stream, hphase, htaken, _⟩ | ⟨heq, _⟩
    · exact absurd htaken (h.not_taken hapart hphase)
    · rw [heq, h.failed]
  bound g' l' hl' := by
    cases hstep with
    | @listen g crank stream port hg _ hport =>
        obtain ⟨hin, hr⟩ := h.inLoops hg (by rintro ⟨⟩)
        obtain ⟨hi, hlt, hstream⟩ := hin
        have hlistens : a.Listens g := ⟨by omega, hi, hr⟩
        have heq := hapart.streamPort_eq hlistens hstream
        have hpos := (hapart.inRange g hlistens).1
        obtain ⟨_, hzero | rfl, _⟩ := hport
        · omega
        · by_cases hg' : g' = g
          · subst hg'
            simp only [goto, listening, Function.update_self, Option.some.injEq] at hl' ⊢
            rw [← hl', heq]
          · simpa [goto, listening, hg'] using
              h.bound g' l' (by simpa [goto, listening, hg'] using hl')
    | bind => exact h.bound g' l' hl'
    | accept _ hl => exact h.bound_listening hl hl'
    | @close g crank stream socket hg =>
        rw [listener_checkHost] at hl'
        rw [bound_checkHost]
        by_cases hg' : g' = g
        · subst hg'
          simp [listening] at hl'
        · exact h.bound g' l' (by simpa [listening, hg'] using hl')
    | await => exact h.bound g' l' hl'
    | connect _ hl =>
        rw [listener_initSocketInfo] at hl'
        rw [bound_initSocketInfo]
        exact h.bound_listening hl hl'
    | ready => exact h.bound g' l' hl'

/-- **A step of the gateways of one rank** is one of all gateways. -/
theorem Undisturbed.lifts (h : Undisturbed a s) (hapart : a.Apart) {r : Nat}
    (hr : r < a.gatewayCount) {t : GatewaySetup}
    (hstep : GatewaySetup.Step (a.ofRank r) (s.ofRank r) t) :
    ∃ s', Step a s s' ∧ s'.ofRank r = t := by
  have hrunning : ∀ g, g ∉ s.failed := by simp [h.failed]
  have htidy := GatewaySetup.tidy_of_reachable (h.separate.reachable r hr)
  cases hstep with
  | @listen k crank stream hk _ =>
      have hin := htidy.inLoops k
      rw [hk] at hin
      obtain ⟨hi, hlt, hstream⟩ := hin
      have hlistens : a.Listens (k, r) := ⟨Nat.zero_lt_of_lt hlt, hi, hr⟩
      have hpos := (hapart.inRange (k, r) hlistens).1
      have heq := hapart.streamPort_eq hlistens hstream
      refine ⟨_, .listen hk (hrunning _) ⟨?_, Or.inr rfl, h.not_taken hapart hk⟩, ?_⟩
      · omega
      · rw [ofRank_goto, ofRank_listening]
        rfl
  | @accept k crank stream port socket backlog hk hl =>
      refine ⟨_, .accept (g := (k, r)) hk hl, ?_⟩
      rw [ofRank_goto, ofRank_listening]
  | @close k crank stream socket hk =>
      refine ⟨_, .close (g := (k, r)) hk, ?_⟩
      rw [ofRank_checkHost (r := r) (htidy.taken k crank stream socket hk), ofRank_listening]
  | @await k crank socket hk hsocket hopcode =>
      refine ⟨_, .await (g := (k, r)) hk hsocket (List.mem_filter.mp hopcode).1, ?_⟩
      rw [ofRank_goto, ofRank_erase]
  | @connect k i stream backlog hk hl =>
      have hin := htidy.inLoops k
      rw [hk] at hin
      obtain ⟨hlt, hi, hstream⟩ := hin
      have hlistens : a.Listens (i, r) := ⟨Nat.zero_lt_of_lt hlt, hi, hr⟩
      have hport := (h.bound (i, r) _ hl).trans (hapart.streamPort_eq hlistens hstream).symm
      refine ⟨_, .connect (g := (k, r)) hk hl rfl hport, ?_⟩
      rw [ofRank_initSocketInfo, ofRank_listening]
      rfl
  | @ready k i socket hk hsocket =>
      refine ⟨_, .ready (g := (k, r)) hk hsocket, ?_⟩
      rw [ofRank_goto, ofRank_cons (r := r) (htidy.kept (k, i, 0) socket hsocket)]

/-- **The gateways of the ranks are side by side**, where every listener has a port of its
own. -/
theorem sideBySide (hapart : a.Apart) :
    SideBySide (Step a) (fun r => GatewaySetup.Step (a.ofRank r)) a.gatewayCount ofRank
      (Undisturbed a) where
  keeps _ _ h hstep := h.step hapart hstep
  moves s s' h hstep := by
    rcases h.separate.moves (h.aimed hapart) hstep with
      ⟨g, crank, stream, hphase, htaken, _⟩ | ⟨_, hmoves⟩
    · exact absurd htaken (h.not_taken hapart hphase)
    · exact hmoves
  lifts _ _ _ h hr hstep := h.lifts hapart hr hstep

/-- Four clusters with two gateways each, all on one host, with two streams. -/
def oneHost : GatewayAddresses where
  clusterCount := 4
  gatewayCount := 2
  streams := 2
  ipv4 := fun _ => 10
  port := fun g => 17000 + 100 * g.1 + 2 * g.2
  streams_pos := Nat.zero_lt_two
  gatewayCount_pos := Nat.zero_lt_two

theorem oneHost_apart : oneHost.Apart where
  inRange := by
    rintro ⟨k, r⟩ ⟨_, hk, hr⟩
    simp only [oneHost] at hk hr ⊢
    omega
  distinct := by
    rintro ⟨k, r⟩ ⟨k', r'⟩ ⟨_, hk, hr⟩ ⟨_, hk', hr'⟩ hne _
    simp only [oneHost] at hk hr hk' hr' ⊢
    have : k ≠ k' ∨ r ≠ r' := by
      by_contra heq
      exact hne (by simp only [not_or, not_not] at heq; rw [heq.1, heq.2])
    omega

/-- All gateways have returned. -/
def AllReturned (a : GatewayAddresses) (s : AllGateways) : Prop :=
  ∀ r < a.gatewayCount, ∀ k < a.clusterCount, s.phase (k, r) = .returned

/-- **When the set-up always comes to its end**, where every listener has a port of its own.
No run of the gateways goes on for ever, and each one ends with all gateways returned, exactly
when there is one cluster only, or when the sockets of a connection have places and a connection
has two streams or more or there are two clusters. -/
theorem setup_completes_iff (hapart : a.Apart) :
    EndsIn (Step a) (AllReturned a) (start a) ↔ a.clusterCount ≤ 1 ∨
      (a.streams ≤ maxStreams ∧ (2 ≤ a.streams ∨ a.clusterCount ≤ 2)) := by
  have hranks : EndsIn (Step a) (AllReturned a) (start a) ↔ ∀ r < a.gatewayCount,
      EndsIn (GatewaySetup.Step (a.ofRank r)) (GatewaySetup.AllReturned (a.ofRank r))
        ((start a).ofRank r) :=
    (sideBySide hapart).endsIn_iff (fun r => GatewaySetup.AllReturned (a.ofRank r))
      (undisturbed_start a)
  rw [hranks]
  constructor
  · intro h
    have hzero := h 0 a.gatewayCount_pos
    rw [ofRank_start a.gatewayCount_pos] at hzero
    exact (GatewaySetup.endsIn_iff_suffices (a.ofRank 0)).mp hzero
  · intro hsuffices r hr
    rw [ofRank_start hr]
    exact (GatewaySetup.endsIn_iff_suffices (a.ofRank r)).mpr hsuffices

theorem setup_completes_oneHost : EndsIn (Step oneHost) (AllReturned oneHost) (start oneHost) :=
  (setup_completes_iff oneHost_apart).mpr (Or.inr (by decide))

end AllGateways

end EsalsaMpi
