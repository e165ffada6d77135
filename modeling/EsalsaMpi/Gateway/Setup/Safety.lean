import EsalsaMpi.Gateway.Setup.Phases

/-!
# When no connection goes astray

With two streams or more, a listener gets no connection but the one that it is
for.  A gateway that connects has heard from all before it that they are done, so
their last streams have found their listeners, and a listener for a last stream has
another port than one for a first.  With one stream the ports are the same, and a
connection may come too early and be lost; up to three clusters nobody else comes
in its place.

In these cases the gateways are paired in every state (`paired_of_roomy`).
-/

namespace EsalsaMpi

open SetupPhase

/-- There are two streams or more, or at most three clusters. -/
def GatewayTable.Roomy (t : GatewayTable) : Prop := 2 ≤ t.streams ∨ t.clusterCount ≤ 3

namespace GatewaySetup

/-- Gateway `k` has made its connection for a stream to gateway `i`, and has kept the
socket if it could. -/
def Connected (s : GatewaySetup) (k i stream : Nat) : Prop :=
  (s.phase k).Made i stream ∨ s.phase k = .outOfBounds

/-- The listener of gateway `i` is open when the phase says so; the oldest connection
in its backlog is the one that it is for; and connections that are sure to find the
right listener wait there. -/
structure Listening (t : GatewayTable) (s : GatewaySetup) (i : Nat) : Prop where
  listening : ∀ l, s.listener i = some l → ∃ c stream, l.port = t.port i + stream ∧
    (s.phase i = .accept c stream ∨ ∃ socket, s.phase i = .close c stream socket)
  next : ∀ c stream l socket, s.phase i = .accept c stream → s.listener i = some l →
    l.backlog.head? = some socket → socket = ⟨c, i, stream, t.rank⟩ ∧ s.Connected c i stream
  waits : ∀ k stream, 2 ≤ t.streams ∨ k = 0 → k < i → i < t.clusterCount →
    stream < t.streams → (s.phase k).Made i stream → (s.phase i).Opened k stream ∧
      (¬ (s.phase i).Accepted k stream → ∃ l, s.listener i = some l ∧ l.backlog ≠ [])

/-- **What holds between the steps.** -/
structure Inv (t : GatewayTable) (s : GatewaySetup) : Prop where
  listening : ∀ i, Listening t s i
  inLoops : ∀ k, (s.phase k).InLoops t k
  expected : ∀ k crank, s.phase k ≠ .unexpectedHost crank
  heard : ∀ i c, c < i → (s.phase i).Heard c → i < t.clusterCount → (s.phase c).Told i
  opcodes : ∀ socket ∈ s.opcodes, (s.phase socket.client).Told socket.server
  made : ∀ k i stream, k < i → i < t.clusterCount → stream < t.streams →
    (s.phase k).Made i stream → s.sockets (k, i, stream) = some ⟨k, i, stream, t.rank⟩
  kept : ∀ i c stream, c < i → i < t.clusterCount → stream < t.streams →
    (s.phase i).Kept c stream →
      s.sockets (i, c, stream) = some ⟨c, i, stream, t.rank⟩ ∧ s.Connected c i stream
  taken : ∀ i c stream socket, s.phase i = .close c stream socket →
    socket = ⟨c, i, stream, t.rank⟩ ∧ s.Connected c i stream

section Connecting

variable {t : GatewayTable} {s : GatewaySetup} {k i stream : Nat} {l : Listener}

/-- Who connects has heard from all before that they are done. -/
theorem made_of_connecting (h : Inv t s) (hphase : s.phase k = .connect i stream) {c : Nat}
    (hc : c < k) (j stream' : Nat) : (s.phase c).Made j stream' := by
  have hin := h.inLoops k
  rw [hphase] at hin
  have htold := h.heard k c hc (by rw [hphase]; trivial) (Nat.lt_trans hin.1 hin.2.1)
  revert htold
  cases s.phase c <;> simp [Told, Made]

/-- An open listener with the port is for the gateway that connects, or for one
before it. -/
theorem listener_le (h : Inv t s) (hphase : s.phase k = .connect i stream) {c : Nat}
    (hfor : s.phase i = .accept c stream ∨ ∃ socket, s.phase i = .close c stream socket) :
    c ≤ k ∧ (c = k → s.phase i = .accept k stream) := by
  have hin := h.inLoops k
  rw [hphase] at hin
  have hnot : ¬ s.Connected k i stream := by
    rintro (hmade | hout)
    · rw [hphase] at hmade
      simp [Made] at hmade
    · rw [hphase] at hout
      cases hout
  constructor
  · by_contra hlt
    have hkept : (s.phase i).Kept k stream := by
      rcases hfor with heq | ⟨socket, heq⟩ <;> rw [heq] <;> exact Or.inl (by omega)
    exact hnot (h.kept i k stream hin.1 hin.2.1 hin.2.2 hkept).2
  · rintro rfl
    rcases hfor with heq | ⟨socket, heq⟩
    · exact heq
    · exact absurd (h.taken i c stream socket heq).2 hnot

/-- With two streams or more, or for the first gateway, it is for the gateway that
connects. -/
theorem accepting_of_connecting (h : Inv t s) (hsure : 2 ≤ t.streams ∨ k = 0)
    (hphase : s.phase k = .connect i stream) (hlistener : s.listener i = some l)
    (hport : l.port = t.port i + stream) : s.phase i = .accept k stream := by
  have hin := h.inLoops k
  rw [hphase] at hin
  obtain ⟨hki, hi, hstream⟩ := hin
  obtain ⟨c, stream', hport', hfor⟩ := (h.listening i).listening l hlistener
  obtain rfl : stream = stream' := by omega
  obtain ⟨hle, heq⟩ := listener_le h hphase hfor
  rcases Nat.lt_or_eq_of_le hle with hlt | rfl
  · exfalso
    have htwo : 2 ≤ t.streams := hsure.resolve_right (by omega)
    -- the last stream of the gateway that the listener is for has been here
    have hlast := ((h.listening i).waits c (t.streams - 1) (Or.inl htwo) (by omega) hi (by omega)
      (made_of_connecting h hphase hlt i _)).1
    have hstream' : t.streams - 1 ≤ stream := by
      rcases hfor with hfor | ⟨socket, hfor⟩ <;> rw [hfor] at hlast <;>
        simp only [Opened] at hlast <;> omega
    -- so the one that connects has made its first stream
    have hfirst := ((h.listening i).waits k 0 (Or.inl htwo) hki hi t.streams_pos
      (by rw [hphase]; exact Or.inr ⟨rfl, by omega⟩)).1
    rcases hfor with hfor | ⟨socket, hfor⟩ <;> rw [hfor] at hfirst <;>
      simp only [Opened] at hfirst <;> omega
  · exact heq rfl

/-- What comes to an empty backlog is what the listener is for. -/
theorem eq_of_connecting (h : Inv t s) (hroomy : t.Roomy) (hphase : s.phase k = .connect i stream)
    (hlistener : s.listener i = some l) (hport : l.port = t.port i + stream)
    (hempty : l.backlog = []) {c stream' : Nat} (haccept : s.phase i = .accept c stream') :
    c = k ∧ stream' = stream := by
  have hin := h.inLoops k
  rw [hphase] at hin
  obtain ⟨hki, hi, hstream⟩ := hin
  by_cases hsure : 2 ≤ t.streams ∨ k = 0
  · have heq := accepting_of_connecting h hsure hphase hlistener hport
    rw [haccept] at heq
    cases heq
    exact ⟨rfl, rfl⟩
  · obtain ⟨c', stream'', hport', hfor⟩ := (h.listening i).listening l hlistener
    have hsame : c' = c ∧ stream'' = stream' := by
      rcases hfor with hfor | ⟨socket, hfor⟩
      · rw [haccept] at hfor
        cases hfor
        exact ⟨rfl, rfl⟩
      · rw [haccept] at hfor
        cases hfor
    obtain ⟨rfl, rfl⟩ := hsame
    obtain rfl : stream = stream'' := by omega
    refine ⟨?_, rfl⟩
    have hle := (listener_le h hphase hfor).1
    have hthree : t.clusterCount ≤ 3 := hroomy.resolve_left fun htwo => hsure (Or.inl htwo)
    by_contra hne
    -- it is for the first gateway, whose connection waits here
    obtain rfl : c' = 0 := by omega
    obtain ⟨l', hl', hbacklog⟩ := ((h.listening i).waits 0 stream (Or.inr rfl) (by omega) hi hstream
      (made_of_connecting h hphase (by omega) i _)).2 (by rw [haccept]; simp [Accepted])
    rw [hlistener] at hl'
    cases hl'
    exact hbacklog hempty

end Connecting

/-! ## Steps -/

section Steps

variable {t : GatewayTable} {s s' : GatewaySetup} {g : Nat} {p' : SetupPhase}

/-- The gateway that moves does not undo anything. -/
theorem advances_of_goes (h : Inv t s) (hgo : Goes t g (s.phase g) p')
    (hphase : s'.phase = Function.update s.phase g p') (k : Nat) :
    Advances (s.phase k) (s'.phase k) := by
  rw [hphase]
  by_cases hk : k = g
  · rw [hk, Function.update_self]
    exact hgo.advances (h.inLoops g)
  · rw [Function.update_of_ne hk]
    exact Advances.refl _

/-- What is newly made is made by the gateway that moves. -/
theorem made_of_goes (h : Inv t s) (hgo : Goes t g (s.phase g) p')
    (hphase : s'.phase = Function.update s.phase g p') {k i stream : Nat} (hki : k < i)
    (hi : i < t.clusterCount) (hstream : stream < t.streams) (hmade : (s'.phase k).Made i stream) :
    (s.phase k).Made i stream ∨ k = g ∧ s.phase g = .connect i stream := by
  rw [hphase] at hmade
  by_cases hk : k = g
  · subst hk
    rw [Function.update_self] at hmade
    rcases hgo.made (h.inLoops k) hki hi hstream hmade with hold | hnew
    · exact Or.inl hold
    · exact Or.inr ⟨rfl, hnew⟩
  · rw [Function.update_of_ne hk] at hmade
    exact Or.inl hmade

/-- Nothing changes for a gateway that does not move, and to whose listener nobody
comes. -/
theorem listening_of_ne (h : Inv t s) (hgo : Goes t g (s.phase g) p')
    (hphase : s'.phase = Function.update s.phase g p') {i : Nat} (hi : i ≠ g)
    (hlistener : s'.listener i = s.listener i) (hnot : ∀ stream, s.phase g ≠ .connect i stream) :
    Listening t s' i := by
  have hsame : s'.phase i = s.phase i := by rw [hphase, Function.update_of_ne hi]
  constructor
  · rw [hsame, hlistener]
    exact (h.listening i).listening
  · intro c stream l socket hi hl hhead
    rw [hsame] at hi
    rw [hlistener] at hl
    obtain ⟨heq, hconn⟩ := (h.listening i).next c stream l socket hi hl hhead
    exact ⟨heq, (advances_of_goes h hgo hphase c).made i stream hconn⟩
  · intro k stream hsure hki hlt hstream hmade
    rw [hsame, hlistener]
    refine (h.listening i).waits k stream hsure hki hlt hstream ?_
    rcases made_of_goes h hgo hphase hki hlt hstream hmade with hold | ⟨_, hnew⟩
    · exact hold
    · exact absurd hnew (hnot stream)

/-- A gateway without a listener, that has not been accepting. -/
theorem listening_of_none (h : Inv t s) (hgo : Goes t g (s.phase g) p')
    (hphase : s'.phase = Function.update s.phase g p') (hnone : s'.listener g = none)
    (hnot : ∀ c stream, s.phase g ≠ .accept c stream) : Listening t s' g := by
  constructor
  · intro l hl
    rw [hnone] at hl
    cases hl
  · intro c stream l socket _ hl
    rw [hnone] at hl
    cases hl
  · intro k stream hsure hkg hlt hstream hmade
    have hold := (made_of_goes h hgo hphase hkg hlt hstream hmade).resolve_right
      fun heq => Nat.ne_of_lt hkg heq.1
    have hopened := ((h.listening g).waits k stream hsure hkg hlt hstream hold).1
    have hadvances := advances_of_goes h hgo hphase g
    refine ⟨hadvances.opened k stream hopened, fun hnotyet => ?_⟩
    refine absurd (hadvances.accepted k stream ?_) hnotyet
    revert hopened hnot
    cases s.phase g <;> simp [Opened, Accepted]

/-- What a step has to show besides. -/
theorem Inv.advance (h : Inv t s) (hgo : Goes t g (s.phase g) p')
    (hphase : s'.phase = Function.update s.phase g p')
    (hsockets : ∀ k i stream, s'.sockets (k, i, stream) = s.sockets (k, i, stream) ∨
      k = g ∧ ((∃ socket, s.phase g = .close i stream socket) ∨ s.phase g = .connect i stream))
    (hkept : ∀ c stream socket, s.phase g = .close c stream socket → p' ≠ .outOfBounds →
      s'.sockets (g, c, stream) = some socket)
    (hmade : ∀ i stream, s.phase g = .connect i stream → p' ≠ .outOfBounds →
      s'.sockets (g, i, stream) = some ⟨g, i, stream, t.rank⟩)
    (hheard : ∀ c, s.phase g = .await c → (s.phase c).Told g)
    (hopcodes : ∀ socket ∈ s'.opcodes, socket ∈ s.opcodes ∨
      socket.client = g ∧ p'.Told socket.server)
    (htaken : ∀ c stream socket, p' = .close c stream socket →
      socket = ⟨c, g, stream, t.rank⟩ ∧ s.Connected c g stream)
    (hlistening : ∀ i, Listening t s' i) : Inv t s' := by
  have hin := h.inLoops g
  have hadvances := advances_of_goes h hgo hphase
  have hself : s'.phase g = p' := by rw [hphase, Function.update_self]
  have hother : ∀ k, k ≠ g → s'.phase k = s.phase k := by
    intro k hk
    rw [hphase, Function.update_of_ne hk]
  have hconnected : ∀ k i stream, s.Connected k i stream → s'.Connected k i stream :=
    fun k i stream => (hadvances k).made i stream
  refine ⟨hlistening, ?_, ?_, ?_, ?_, ?_, ?_, ?_⟩
  · intro k
    by_cases hk : k = g
    · rw [hk, hself]
      exact hgo.inLoops hin
    · rw [hother k hk]
      exact h.inLoops k
  · intro k crank
    by_cases hk : k = g
    · rw [hk, hself]
      exact hgo.expected crank
    · rw [hother k hk]
      exact h.expected k crank
  · intro i c hc hi hlt
    refine (hadvances c).told i ?_
    by_cases hi' : i = g
    · subst hi'
      rw [hself] at hi
      rcases hgo.heard hc hi with hi | hi
      · exact h.heard i c hc hi hlt
      · exact hheard c hi
    · rw [hother i hi'] at hi
      exact h.heard i c hc hi hlt
  · intro socket hsocket
    rcases hopcodes socket hsocket with hold | ⟨hclient, htold⟩
    · exact (hadvances _).told _ (h.opcodes socket hold)
    · rw [hclient, hself]
      exact htold
  · intro k i stream hki hi hstream hk
    by_cases hk' : k = g
    · subst hk'
      rw [hself] at hk
      rcases hgo.made hin hki hi hstream hk with hold | hnew
      · rcases hsockets k i stream with heq | ⟨_, ⟨socket, hclose⟩ | hconnect⟩
        · rw [heq]
          exact h.made k i stream hki hi hstream hold
        · rw [hclose] at hold
          cases hold
        · rw [hconnect] at hold
          simp [Made] at hold
      · refine hmade i stream hnew ?_
        rintro rfl
        cases hk
    · rw [hother k hk'] at hk
      rw [(hsockets k i stream).resolve_right fun hg => hk' hg.1]
      exact h.made k i stream hki hi hstream hk
  · intro i c stream hc hi hstream hk
    by_cases hi' : i = g
    · subst hi'
      rw [hself] at hk
      rcases hgo.kept hc hstream hk with hold | ⟨socket, hnew⟩
      · obtain ⟨hsocket, hconn⟩ := h.kept i c stream hc hi hstream hold
        refine ⟨?_, hconnected c i stream hconn⟩
        rcases hsockets i c stream with heq | ⟨_, ⟨socket, hclose⟩ | hconnect⟩
        · rw [heq, hsocket]
        · rw [hclose] at hold
          simp [Kept] at hold
        · rw [hconnect] at hin
          exact absurd hin.1 (by omega)
      · obtain ⟨rfl, hconn⟩ := h.taken i c stream socket hnew
        refine ⟨hkept c stream _ hnew ?_, hconnected c i stream hconn⟩
        rintro rfl
        cases hk
    · rw [hother i hi'] at hk
      obtain ⟨hsocket, hconn⟩ := h.kept i c stream hc hi hstream hk
      rw [(hsockets i c stream).resolve_right fun hg => hi' hg.1]
      exact ⟨hsocket, hconnected c i stream hconn⟩
  · intro i c stream socket hi
    by_cases hi' : i = g
    · subst hi'
      rw [hself] at hi
      obtain ⟨heq, hconn⟩ := htaken c stream socket hi
      exact ⟨heq, hconnected c i stream hconn⟩
    · rw [hother i hi'] at hi
      obtain ⟨heq, hconn⟩ := h.taken i c stream socket hi
      exact ⟨heq, hconnected c i stream hconn⟩

variable {c stream : Nat} {socket : TcpConnection}

/-- A gateway opens a listener. -/
theorem inv_listen (h : Inv t s) (hg : s.phase g = .listen c stream) :
    Inv t ((s.listening g (some ⟨t.port g + stream, []⟩)).goto g (.accept c stream)) := by
  have hgo : Goes t g (s.phase g) (.accept c stream) := hg ▸ Goes.listen c stream
  refine h.advance hgo rfl (fun _ _ _ => Or.inl rfl) (by simp [hg]) (by simp [hg]) (by simp [hg])
    (fun socket hs => Or.inl hs) (by nofun) ?_
  · intro i
    by_cases hi : i = g
    · subst hi
      constructor
      · intro l hl
        simp only [goto, listening, Function.update_self, Option.some.injEq] at hl
        subst hl
        exact ⟨c, stream, rfl, Or.inl (by simp [goto])⟩
      · intro c' stream' l socket' _ hl hhead
        simp only [goto, listening, Function.update_self, Option.some.injEq] at hl
        subst hl
        cases hhead
      · intro k stream' hsure hki hlt hstream hmade
        have hold := (made_of_goes h hgo rfl hki hlt hstream hmade).resolve_right
          fun heq => Nat.ne_of_lt hki heq.1
        have hopened := ((h.listening i).waits k stream' hsure hki hlt hstream hold).1
        rw [hg] at hopened
        simp only [goto, Function.update_self, Opened, Accepted] at hopened ⊢
        exact ⟨by omega, fun hnot => absurd hopened hnot⟩
    · exact listening_of_ne h hgo rfl hi (by simp [goto, listening, hi]) (by simp [hg])

/-- A gateway accepts a connection. -/
theorem inv_accept (h : Inv t s) (hg : s.phase g = .accept c stream) {port : Nat}
    {backlog : List TcpConnection} (hlistener : s.listener g = some ⟨port, socket :: backlog⟩) :
    Inv t ((s.listening g (some ⟨port, backlog⟩)).goto g (.close c stream socket)) := by
  have hgo : Goes t g (s.phase g) (.close c stream socket) := hg ▸ Goes.accept c stream socket
  have hnext := (h.listening g).next c stream _ socket hg hlistener rfl
  refine h.advance hgo rfl (fun _ _ _ => Or.inl rfl) (by simp [hg]) (by simp [hg]) (by simp [hg])
    (fun socket hs => Or.inl hs) ?_ ?_
  · intro c' stream' socket' hphase
    cases hphase
    exact hnext
  · intro i
    by_cases hi : i = g
    · subst hi
      constructor
      · intro l hl
        simp only [goto, listening, Function.update_self, Option.some.injEq] at hl
        subst hl
        obtain ⟨c', stream', hport, hfor⟩ := (h.listening i).listening _ hlistener
        rw [hg] at hfor
        rcases hfor with hfor | ⟨_, hfor⟩
        · cases hfor
          exact ⟨c, stream, hport, Or.inr ⟨socket, by simp [goto]⟩⟩
        · cases hfor
      · intro c' stream' l socket' hphase
        simp [goto] at hphase
      · intro k stream' hsure hki hlt hstream hmade
        have hold := (made_of_goes h hgo rfl hki hlt hstream hmade).resolve_right
          fun heq => Nat.ne_of_lt hki heq.1
        have hopened := ((h.listening i).waits k stream' hsure hki hlt hstream hold).1
        rw [hg] at hopened
        simp only [goto, Function.update_self, Opened, Accepted] at hopened ⊢
        exact ⟨hopened, fun hnot => absurd hopened hnot⟩
    · exact listening_of_ne h hgo rfl hi (by simp [goto, listening, hi]) (by simp [hg])

/-- A gateway without a listener goes on and leaves the listeners of the others. -/
theorem listening_of_idle (h : Inv t s) (hgo : Goes t g (s.phase g) p')
    (hphase : s'.phase = Function.update s.phase g p') (hnone : s'.listener g = none)
    (hlistener : ∀ i, i ≠ g → s'.listener i = s.listener i)
    (haccept : ∀ c stream, s.phase g ≠ .accept c stream)
    (hconnect : ∀ i stream, s.phase g ≠ .connect i stream) (i : Nat) : Listening t s' i := by
  by_cases hi : i = g
  · subst hi
    exact listening_of_none h hgo hphase hnone haccept
  · exact listening_of_ne h hgo hphase hi (hlistener i hi) (hconnect i)

/-- A gateway closes its listener and finds the host that it expects. -/
theorem inv_close (h : Inv t s) (hg : s.phase g = .close c stream socket) :
    Inv t ((s.listening g none).checkHost t g c stream socket) := by
  have htaken := (h.taken g c stream socket hg).1
  have hnone : ∀ i, i ≠ g → (s.listening g none).listener i = s.listener i := fun i hi =>
    Function.update_of_ne hi _ _
  rw [checkHost, if_pos (by rw [htaken]), initSocketInfo]
  split
  · have hgo : Goes t g (s.phase g) (t.afterAccept c stream) := hg ▸ Goes.close c stream socket
    refine h.advance hgo rfl ?_ ?_ (by simp [hg]) (by simp [hg]) (fun socket hs => Or.inl hs) ?_
      (listening_of_idle h hgo rfl (by simp [goto, listening]) hnone (by simp [hg]) (by simp [hg]))
    · intro k i stream'
      by_cases hkey : (k, i, stream') = (g, c, stream)
      · cases hkey
        exact Or.inr ⟨rfl, Or.inl ⟨socket, hg⟩⟩
      · exact Or.inl (Function.update_of_ne hkey _ _)
    · intro c' stream' socket' hphase _
      rw [hg] at hphase
      cases hphase
      exact Function.update_self _ _ _
    · intro c' stream' socket' hphase
      unfold GatewayTable.afterAccept at hphase
      split at hphase <;> cases hphase
  · have hgo : Goes t g (s.phase g) .outOfBounds := hg ▸ Goes.closeOut c stream socket
    exact h.advance hgo rfl (fun _ _ _ => Or.inl rfl) (fun _ _ _ _ hne => absurd rfl hne)
      (by simp [hg]) (by simp [hg]) (fun socket hs => Or.inl hs) (by rintro _ _ _ ⟨⟩)
      (listening_of_idle h hgo rfl (by simp [goto, listening]) hnone (by simp [hg]) (by simp [hg]))

/-- A gateway without a listener has none. -/
theorem listener_eq_none (h : Inv t s) (haccept : ∀ c stream, s.phase g ≠ .accept c stream)
    (hclose : ∀ c stream socket, s.phase g ≠ .close c stream socket) : s.listener g = none := by
  cases hl : s.listener g with
  | none => rfl
  | some l =>
      obtain ⟨c, stream, _, hphase | ⟨socket, hphase⟩⟩ := (h.listening g).listening l hl
      · exact absurd hphase (haccept c stream)
      · exact absurd hphase (hclose c stream socket)

/-- A gateway receives an opcode. -/
theorem inv_await (h : Inv t s) (hg : s.phase g = .await c)
    (hsocket : s.sockets (g, c, 0) = some socket) (hopcode : socket ∈ s.opcodes) :
    Inv t ({ s with opcodes := s.opcodes.erase socket }.goto g
      (t.connectToGateways g (c + 1))) := by
  have hgo : Goes t g (s.phase g) (t.connectToGateways g (c + 1)) := hg ▸ Goes.await c
  have hnone : s.listener g = none := listener_eq_none h (by simp [hg]) (by simp [hg])
  refine h.advance hgo rfl (fun _ _ _ => Or.inl rfl) (by simp [hg]) (by simp [hg]) ?_
    (fun socket hs => Or.inl (List.mem_of_mem_erase hs)) ?_
    (listening_of_idle h hgo rfl hnone (fun _ _ => rfl) (by simp [hg]) (by simp [hg]))
  · intro c' hphase
    rw [hg] at hphase
    cases hphase
    -- the socket that carries the opcode is that of gateway `c`
    have hin := h.inLoops g
    rw [hg] at hin
    have hkept := (h.kept g c 0 hin.2 hin.1 t.streams_pos (by rw [hg]; exact Nat.le_refl c)).1
    rw [hsocket] at hkept
    cases hkept
    exact h.opcodes _ hopcode
  · intro c' stream' socket' hphase
    unfold GatewayTable.connectToGateways at hphase
    split at hphase
    · cases hphase
    · split at hphase <;> cases hphase

/-- A gateway sends an opcode. -/
theorem inv_ready (h : Inv t s) {i : Nat} (hg : s.phase g = .ready i)
    (hsocket : s.sockets (g, i, 0) = some socket) :
    Inv t ({ s with opcodes := socket :: s.opcodes }.goto g (t.afterReady i)) := by
  have hgo : Goes t g (s.phase g) (t.afterReady i) := hg ▸ Goes.ready i
  have hnone : s.listener g = none := listener_eq_none h (by simp [hg]) (by simp [hg])
  refine h.advance hgo rfl (fun _ _ _ => Or.inl rfl) (by simp [hg]) (by simp [hg]) (by simp [hg])
    ?_ ?_ (listening_of_idle h hgo rfl hnone (fun _ _ => rfl) (by simp [hg]) (by simp [hg]))
  · intro socket' hmem
    rcases List.mem_cons.mp hmem with rfl | hmem
    · have hin := h.inLoops g
      rw [hg] at hin
      have hmade := h.made g i 0 hin.1 hin.2 t.streams_pos (by rw [hg]; trivial)
      rw [hsocket] at hmade
      cases hmade
      refine Or.inr ⟨rfl, ?_⟩
      unfold GatewayTable.afterReady
      split
      · exact Nat.lt_succ_self i
      · trivial
    · exact Or.inl hmem
  · intro c' stream' socket' hphase
    unfold GatewayTable.afterReady at hphase
    split at hphase <;> cases hphase

section Connect

variable {i : Nat} {backlog : List TcpConnection}

/-- A connection comes to a listener. -/
theorem listening_of_connect (h : Inv t s) (hroomy : t.Roomy) (hg : s.phase g = .connect i stream)
    (hlistener : s.listener i = some ⟨t.port i + stream, backlog⟩)
    (hgo : Goes t g (s.phase g) p') (hphase : s'.phase = Function.update s.phase g p')
    (hlistener' : s'.listener = Function.update s.listener i
      (some ⟨t.port i + stream, backlog ++ [⟨g, i, stream, t.rank⟩]⟩))
    (hconnected : s'.Connected g i stream) (j : Nat) : Listening t s' j := by
  have hin := h.inLoops g
  rw [hg] at hin
  have hne : i ≠ g := Nat.ne_of_gt hin.1
  have hsame : s'.phase i = s.phase i := by rw [hphase, Function.update_of_ne hne]
  have hself : s'.listener i = some ⟨t.port i + stream, backlog ++ [⟨g, i, stream, t.rank⟩]⟩ := by
    rw [hlistener', Function.update_self]
  by_cases hji : j = i
  · subst hji
    constructor
    · intro l hl
      rw [hself] at hl
      cases hl
      obtain ⟨c, stream', hport, hfor⟩ := (h.listening j).listening _ hlistener
      exact ⟨c, stream', hport, hsame ▸ hfor⟩
    · intro c stream' l socket hj hl hhead
      rw [hsame] at hj
      rw [hself] at hl
      cases hl
      cases backlog with
      | nil =>
          obtain ⟨rfl, rfl⟩ := eq_of_connecting h hroomy hg hlistener rfl rfl hj
          cases hhead
          exact ⟨rfl, hconnected⟩
      | cons first rest =>
          obtain ⟨heq, hconn⟩ := (h.listening j).next c stream' _ socket hj hlistener hhead
          exact ⟨heq, (advances_of_goes h hgo hphase c).made j stream' hconn⟩
    · intro k stream' hsure hkj hlt hstream hmade
      rw [hsame]
      refine ⟨?_, fun _ => ⟨_, hself, by simp⟩⟩
      rcases made_of_goes h hgo hphase hkj hlt hstream hmade with hold | ⟨rfl, hnew⟩
      · exact ((h.listening j).waits k stream' hsure hkj hlt hstream hold).1
      · rw [hg] at hnew
        cases hnew
        rw [accepting_of_connecting h hsure hg hlistener rfl]
        exact Or.inr ⟨rfl, Nat.le_refl stream⟩
  · have hothers : s'.listener j = s.listener j := by rw [hlistener', Function.update_of_ne hji]
    by_cases hjg : j = g
    · subst hjg
      have hnone : s.listener j = none := listener_eq_none h (by simp [hg]) (by simp [hg])
      exact listening_of_none h hgo hphase (hothers.trans hnone) (by simp [hg])
    · refine listening_of_ne h hgo hphase hjg hothers fun stream' heq => ?_
      rw [hg] at heq
      cases heq
      exact hji rfl

/-- A gateway connects. -/
theorem inv_connect (h : Inv t s) (hroomy : t.Roomy) (hg : s.phase g = .connect i stream)
    (hlistener : s.listener i = some ⟨t.port i + stream, backlog⟩) :
    Inv t ((s.listening i
      (some ⟨t.port i + stream, backlog ++ [⟨g, i, stream, t.rank⟩]⟩)).initSocketInfo
      g i stream ⟨g, i, stream, t.rank⟩ (t.afterConnect g i stream)) := by
  rw [initSocketInfo]
  split
  · have hgo : Goes t g (s.phase g) (t.afterConnect g i stream) := hg ▸ Goes.connect i stream
    refine h.advance hgo rfl ?_ (by simp [hg]) ?_ (by simp [hg]) (fun socket hs => Or.inl hs) ?_
      (listening_of_connect h hroomy hg hlistener hgo rfl rfl (Or.inl ?_))
    · intro k j stream'
      by_cases hkey : (k, j, stream') = (g, i, stream)
      · cases hkey
        exact Or.inr ⟨rfl, Or.inr hg⟩
      · exact Or.inl (Function.update_of_ne hkey _ _)
    · intro j stream' hphase _
      rw [hg] at hphase
      cases hphase
      exact Function.update_self _ _ _
    · intro c' stream' socket' hphase
      unfold GatewayTable.afterConnect at hphase
      split at hphase
      · cases hphase
      · split at hphase <;> cases hphase
    · simp only [goto, Function.update_self]
      unfold GatewayTable.afterConnect
      split
      · exact Or.inr ⟨rfl, Nat.lt_succ_self stream⟩
      · split
        · exact Or.inl (Nat.lt_succ_self i)
        · trivial
  · have hgo : Goes t g (s.phase g) .outOfBounds := hg ▸ Goes.connectOut i stream
    exact h.advance hgo rfl (fun _ _ _ => Or.inl rfl) (by simp [hg])
      (fun _ _ _ hne => absurd rfl hne) (by simp [hg]) (fun socket hs => Or.inl hs) (by rintro _ _ _ ⟨⟩)
      (listening_of_connect h hroomy hg hlistener hgo rfl rfl
        (Or.inr (Function.update_self _ _ _)))

end Connect

/-- **Every step keeps the invariant.** -/
theorem inv_step (h : Inv t s) (hroomy : t.Roomy) (hstep : Step t s s') : Inv t s' := by
  cases hstep with
  | listen hphase hclosed => exact inv_listen h hphase
  | accept hphase hlistener => exact inv_accept h hphase hlistener
  | close hphase => exact inv_close h hphase
  | await hphase hsocket hopcode => exact inv_await h hphase hsocket hopcode
  | connect hphase hlistener => exact inv_connect h hroomy hphase hlistener
  | ready hphase hsocket => exact inv_ready h hphase hsocket

end Steps

/-- In the beginning a gateway accepts from the first, which connects. -/
theorem start_phase (t : GatewayTable) {k : Nat} (hk : k < t.clusterCount) :
    (start t).phase k = .listen 0 0 ∨
      k = 0 ∧ ((start t).phase k = .connect 1 0 ∨ t.clusterCount = 1) := by
  simp only [start, if_pos hk, GatewayTable.connectToGateways]
  rcases Nat.eq_zero_or_pos k with rfl | hpos
  · by_cases hone : 1 < t.clusterCount
    · exact Or.inr ⟨rfl, Or.inl (by simp [hone])⟩
    · exact Or.inr ⟨rfl, Or.inr (by omega)⟩
  · exact Or.inl (if_pos hpos)

theorem inv_start (t : GatewayTable) : Inv t (start t) := by
  have hmade : ∀ k i stream, k < i → i < t.clusterCount → ¬ ((start t).phase k).Made i stream := by
    intro k i stream hki hi hmade
    rcases start_phase t (Nat.lt_trans hki hi) with hk | ⟨rfl, hk | hone⟩
    · rw [hk] at hmade
      cases hmade
    · rw [hk] at hmade
      simp only [Made] at hmade
      omega
    · omega
  have hlisten : ∀ i c, c < i → i < t.clusterCount → (start t).phase i = .listen 0 0 := by
    intro i c hc hi
    exact (start_phase t hi).resolve_right fun hzero => by omega
  refine ⟨fun i => ⟨by rintro l ⟨⟩, by rintro c stream l socket hphase ⟨⟩, ?_⟩, ?_, ?_, ?_,
    by rintro socket ⟨⟩, ?_, ?_, ?_⟩
  · intro k stream _ hki hi _ hk
    exact absurd hk (hmade k i stream hki hi)
  · intro k
    simp only [start]
    split
    · next hk => exact inLoops_connectToGateways hk
    · trivial
  · intro k crank
    simp only [start, GatewayTable.connectToGateways]
    split
    · split
      · rintro ⟨⟩
      · split <;> rintro ⟨⟩
    · rintro ⟨⟩
  · intro i c hc hheard hi
    rw [hlisten i c hc hi] at hheard
    exact absurd hheard (Nat.not_lt_zero c)
  · intro k i stream hki hi _ hk
    exact absurd hk (hmade k i stream hki hi)
  · intro i c stream hc hi _ hkept
    rw [hlisten i c hc hi] at hkept
    simp only [Kept] at hkept
    omega
  · intro i c stream socket hphase
    simp only [start, GatewayTable.connectToGateways] at hphase
    split at hphase
    · split at hphase
      · cases hphase
      · split at hphase <;> cases hphase
    · cases hphase

end GatewaySetup

end EsalsaMpi
