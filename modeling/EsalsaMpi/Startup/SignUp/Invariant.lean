import EsalsaMpi.Startup.SignUp.Holding

/-!
# The invariant of the sign-up

What every event keeps: what the server holds (`Holding`) and the connections of all master
gateways (`Line`), one of which changes (`lines_of`).
-/

namespace EsalsaMpi

namespace SignUp

open Networks Startup CommandLine

variable {cfg : Configuration} {text : List UInt8 → String} {arrivals : Arrivals}
  {s s' : State} {i j k : Nat} {c : Cluster}

/-- What holds in every state of a run. -/
structure Inv (cfg : Configuration) (text : List UInt8 → String) (arrivals : Arrivals)
    (s : State) : Prop where
  holding : Holding cfg text arrivals s
  reported : ∀ k i, s.thread k = .finished i → s.ready i
  line : ∀ k, s.Line cfg arrivals k

theorem inv_start : Inv cfg text arrivals start where
  holding := by
    constructor <;> simp [start, Thread.cluster, Thread.owner]
  reported _ _ hfinished := by cases hfinished
  line _ :=
    { idle := iff_of_true rfl rfl
      sent := fun _ => rfl
      written := fun _ _ => rfl
      told := Nat.zero_le _
      held := fun p hp => absurd hp (by simp [start, Thread.told])
      sound := trivial
      replies := fun _ hm => absurd hm List.not_mem_nil }

/-- **One connection changes.** -/
theorem lines_of (h : ∀ j, s.Line cfg arrivals j) (hmore : Extends s.gateways s'.gateways)
    (hother : ∀ j ≠ k, s'.thread j = s.thread j ∧ s'.master j = s.master j ∧
      s'.toServer j = s.toServer j ∧ s'.toMaster j = s.toMaster j)
    (hself : s'.Line cfg arrivals k) : ∀ j, s'.Line cfg arrivals j := by
  intro j
  by_cases hj : j = k
  · subst hj
    exact hself
  · obtain ⟨hthread, hmaster, htoServer, htoMaster⟩ := hother j hj
    rw [State.Line, hthread, hmaster, htoServer, htoMaster]
    exact (h j).extend hmore

/-- No other thread has finished. -/
theorem reported_of (h : ∀ k i, s.thread k = .finished i → s.ready i) {t : Thread}
    (ht : ∀ i, t ≠ .finished i) (hthread : s'.thread = Function.update s.thread k t)
    (hready : s'.ready = s.ready) : ∀ k i, s'.thread k = .finished i → s'.ready i := by
  intro j i hj
  rw [hready]
  rw [hthread] at hj
  by_cases hjk : j = k
  · rw [hjk, Function.update_self] at hj
    exact absurd hj (ht i)
  · rw [Function.update_of_ne hjk] at hj
    exact h j i hj

theorem extends_refl (gateways : Nat → Nat → Option HeldInfo) : Extends gateways gateways :=
  fun _ _ _ h => h

/-- The names that come are not too long. -/
theorem found_eq_none (h : ¬ (0 < (arrivals.gateway k).name.length ∧
    (arrivals.gateway k).name.length ≤ maxLengthClusterName)) :
    arrivals.found cfg text k = none := by
  have hlt := (arrivals.gateway k).name_lt
  rw [Arrivals.found, if_neg]
  omega

/-! ### The events of a master gateway -/

theorem Inv.accept (h : Inv cfg text arrivals s) : Inv cfg text arrivals (s.accept k) := by
  unfold State.accept
  split
  · rename_i hthread hmaster
    split
    · exact h
    · refine ⟨h.holding.move (k := k) (t := .accepted) ?_ ?_ ?_ ?_ ?_ ?_ ?_ ?_ rfl rfl rfl rfl rfl,
        reported_of h.reported (k := k) (t := .accepted) (by simp) rfl rfl,
        lines_of (k := k) h.line (extends_refl _) (fun j hj => ?_) ?_⟩
      · exact fun i hi => absurd hi (by simp [Thread.cluster])
      · exact fun i hi => absurd hi (by simp [Thread.owner])
      · exact fun i hi => absurd hi (by simp [hthread, Thread.owner])
      · exact fun hlost => absurd hlost (by simp [hthread])
      · exact fun hlost => absurd hlost (by simp)
      · exact fun i hi => absurd hi (by simp [Thread.owner])
      · exact fun i j hi => absurd hi (by simp)
      · exact fun i hi => absurd hi (by simp [hthread])
      · simp only [Function.update_of_ne hj, and_self]
      · have hline := h.line k
        rw [State.Line, hthread, hmaster] at hline
        simpa only [State.Line, Function.update_self] using hline.accept
  · exact h

/-- What the server holds depends on its threads only. -/
theorem Holding.congr (h : Holding cfg text arrivals s) (hthread : s'.thread = s.thread)
    (hsocket : s'.socket = s.socket) (hgateways : s'.gateways = s.gateways)
    (hready : s'.ready = s.ready) (hclosed : s'.closed = s.closed) :
    Holding cfg text arrivals s' := by
  obtain ⟨hcluster, howner, hsock, hfailed, hheld, hheard, hindex, hall, hstart⟩ := h
  constructor <;> simpa only [hthread, hsocket, hgateways, hready, hclosed]

theorem Inv.sendHandshake (h : Inv cfg text arrivals s) :
    Inv cfg text arrivals (s.sendHandshake arrivals k) := by
  unfold State.sendHandshake
  split
  · rename_i hmaster
    refine ⟨h.holding.congr rfl rfl rfl rfl rfl, h.reported,
      lines_of (k := k) h.line (extends_refl _) (fun j hj => ?_) ?_⟩
    · simp only [Queues.push, Function.update_of_ne hj, and_self]
    · have hline := h.line k
      rw [State.Line, hmaster] at hline
      simpa only [State.Line, Queues.push_self, Function.update_self] using hline.sendHandshake
  · exact h

theorem Inv.receiveReply (h : Inv cfg text arrivals s) :
    Inv cfg text arrivals (s.receiveReply arrivals k) := by
  unfold State.receiveReply
  split
  · rename_i x rest hmaster hlink
    have hline := h.line k
    rw [State.Line, hmaster, hlink] at hline
    have hfailed : Inv cfg text arrivals { s with
        master := Function.update s.master k .failed
        toMaster := Function.update s.toMaster k rest
        toServer := Queues.push s.toServer k [.closed] } := by
      refine ⟨h.holding.congr rfl rfl rfl rfl rfl, h.reported,
        lines_of (k := k) h.line (extends_refl _) (fun j hj => ?_) ?_⟩
      · simp only [Queues.push, Function.update_of_ne hj, and_self]
      · simpa only [State.Line, Queues.push_self, Function.update_self] using hline.refuse
    dsimp only
    split
    · split
      · rename_i haccepted
        refine ⟨h.holding.congr rfl rfl rfl rfl rfl, h.reported,
          lines_of (k := k) h.line (extends_refl _) (fun j hj => ?_) ?_⟩
        · simp only [Function.update_of_ne hj, and_self]
        · simpa only [State.Line, Function.update_self] using
            hline.receiveReply haccepted.1 haccepted.2
      · exact hfailed
    · exact hfailed
  · exact h

theorem Inv.sendAddresses (h : Inv cfg text arrivals s) :
    Inv cfg text arrivals (s.sendAddresses arrivals k) := by
  unfold State.sendAddresses
  split
  · rename_i hmaster
    refine ⟨h.holding.congr rfl rfl rfl rfl rfl, h.reported,
      lines_of (k := k) h.line (extends_refl _) (fun j hj => ?_) ?_⟩
    · simp only [Queues.push, Function.update_of_ne hj, and_self]
    · have hline := h.line k
      rw [State.Line, hmaster] at hline
      simpa only [State.Line, Queues.push_self, Function.update_self, MasterGateway.info] using
        hline.sendAddresses
  · exact h

theorem Inv.receiveGateway (h : Inv cfg text arrivals s) :
    Inv cfg text arrivals (s.receiveGateway k) := by
  unfold State.receiveGateway
  split
  · rename_i x rest hmaster hlink
    have hline := h.line k
    rw [State.Line, hmaster, hlink] at hline
    dsimp only
    split
    · refine ⟨h.holding.congr rfl rfl rfl rfl rfl, h.reported,
        lines_of (k := k) h.line (extends_refl _) (fun j hj => ?_) ?_⟩
      · simp only [Function.update_of_ne hj, and_self]
      · simpa only [State.Line, Function.update_self] using hline.receiveGateway
    · rename_i hother
      have hlost := hline.confuse hother
      refine ⟨h.holding.congr rfl rfl rfl rfl rfl, h.reported,
        lines_of (k := k) h.line (extends_refl _) (fun j hj => ?_) ?_⟩
      · simp only [Function.update_of_ne hj, and_self]
      · simp only [State.Line, Function.update_self]
        rw [hlost] at hline ⊢
        exact
          { hline with
            idle := iff_of_false (by simp) (by simp)
            sent := fun hne => absurd rfl hne
            written := fun hne => absurd rfl hne
            sound := trivial
            replies := fun numbers hm => hline.replies numbers (List.mem_cons_of_mem _ hm) }
  · exact h

/-! ### The events of a thread -/

/-- A thread that fails. -/
theorem Inv.fail (h : Inv cfg text arrivals s) (hidle : s.thread k ≠ .idle)
    (hready : ∀ i, s.thread k ≠ .finished i)
    (hfailed : ∀ i, arrivals.found cfg text k = some i → (s.socket i).isSome)
    (toServer : List ToServer) (toMaster : List ToMaster)
    (hreplies : ∀ numbers, .accepted numbers ∈ toMaster → .accepted numbers ∈ s.toMaster k) :
    Inv cfg text arrivals { s with
      thread := Function.update s.thread k .failed
      toServer := Function.update s.toServer k toServer
      toMaster := Function.update s.toMaster k toMaster } := by
  refine ⟨h.holding.fail hfailed hready rfl rfl rfl rfl rfl,
    reported_of h.reported (k := k) (t := .failed) (by simp) rfl rfl,
    lines_of (k := k) h.line (extends_refl _) (fun j hj => ?_) ?_⟩
  · simp only [Function.update_of_ne hj, and_self]
  · simpa only [State.Line, Function.update_self] using (h.line k).fail hidle hreplies

theorem Inv.getCluster (h : Inv cfg text arrivals s) :
    Inv cfg text arrivals (s.getCluster cfg text k) := by
  unfold State.getCluster
  split
  · rename_i x rest hthread hlink
    have hline := h.line k
    rw [State.Line, hthread, hlink] at hline
    obtain ⟨rfl, _⟩ := hline.name
    have hidle : s.thread k ≠ .idle := by simp [hthread]
    have hready : ∀ i, s.thread k ≠ .finished i := by simp [hthread]
    dsimp only
    split
    · rename_i hlegal
      have hfound : arrivals.found cfg text k =
          cfg.getCluster text (arrivals.gateway k).name := if_pos hlegal.1
      split
      · rename_i i hi
        refine ⟨h.holding.move (k := k) (t := .found i) ?_ ?_ ?_ ?_ ?_ ?_ ?_ ?_ rfl rfl rfl rfl
          rfl, reported_of h.reported (k := k) (t := .found i) (by simp) rfl rfl,
          lines_of (k := k) h.line (extends_refl _) (fun j hj => ?_) ?_⟩
        · rintro a ha
          cases ha
          rw [hfound, hi]
        · exact fun i hi => absurd hi (by simp [Thread.owner])
        · exact fun i hi => absurd hi (by simp [hthread, Thread.owner])
        · exact fun hlost => absurd hlost (by simp [hthread])
        · exact fun hlost => absurd hlost (by simp)
        · exact fun i hi => absurd hi (by simp [Thread.owner])
        · exact fun i j hi => absurd hi (by simp)
        · exact fun i hi => absurd hi (by simp [hthread])
        · simp only [Function.update_of_ne hj, and_self]
        · simpa only [State.Line, Function.update_self] using hline.getCluster i
      · rename_i hnone
        refine h.fail hidle hready (fun i hi => ?_) rest (s.toMaster k ++ [.rejected])
          (fun numbers hm => ?_)
        · rw [hfound, hnone] at hi
          cases hi
        · simpa using hm
    · rename_i hillegal
      have hgone := h.fail hidle hready
        (fun i hi => by rw [found_eq_none hillegal] at hi; cases hi) rest (s.toMaster k)
        (fun _ hm => hm)
      rwa [Function.update_eq_self] at hgone
  · exact h

theorem Inv.setConnection (h : Inv cfg text arrivals s) (hk : k < arrivals.number) :
    Inv cfg text arrivals (s.setConnection k) := by
  unfold State.setConnection
  split
  · rename_i i hthread
    have hfound := h.holding.cluster k i (by rw [hthread]; rfl)
    split
    · rename_i j hsocket
      have hgone := h.fail (by simp [hthread]) (by simp [hthread])
        (fun a ha => by
          obtain rfl := Option.some.inj (hfound.symm.trans ha)
          rw [hsocket]
          rfl) (s.toServer k) (s.toMaster k) (fun _ hm => hm)
      rwa [Function.update_eq_self, Function.update_eq_self] at hgone
    · rename_i hfree
      refine ⟨h.holding.connect hk hthread hfree,
        reported_of h.reported (k := k) (t := .connected i) (by simp) rfl rfl,
        lines_of (k := k) h.line (extends_refl _) (fun j hj => ?_) ?_⟩
      · simp only [Function.update_of_ne hj, and_self]
      · have hline := h.line k
        rw [State.Line, hthread] at hline
        simpa only [State.Line, Function.update_self] using hline.setConnection
  · exact h

/-- **A connected thread goes on**, with the same cluster. -/
theorem Holding.proceed (h : Holding cfg text arrivals s) {t : Thread}
    (hold : (s.thread k).owner = some i) (hnew : t.owner = some i)
    (hheard : ∀ j < t.heard cfg, (s.gateways i j).isSome)
    (hindex : ∀ i j, t = .receiving i j → j < cfg.numberOfGatewaysPerCluster)
    (hready : ∀ i, s.thread k ≠ .finished i)
    (hthread : s'.thread = Function.update s.thread k t) (hsocket : s'.socket = s.socket)
    (hgateways : s'.gateways = s.gateways) (hsame : s'.ready = s.ready)
    (hclosed : s'.closed = s.closed) : Holding cfg text arrivals s' := by
  have hfound := h.cluster k i (Thread.cluster_of_owner hold)
  have hnot : t ≠ .failed := by
    rintro rfl
    cases hnew
  refine h.move (t := t) ?_ ?_ ?_ ?_ ?_ ?_ hindex ?_ hthread hsocket hgateways hsame hclosed
  · intro a ha
    obtain rfl : i = a := Option.some.inj ((Thread.cluster_of_owner hnew).symm.trans ha)
    exact hfound
  · intro a ha
    obtain rfl : i = a := Option.some.inj (hnew.symm.trans ha)
    exact h.owner k i hold
  · intro a ha
    obtain rfl : i = a := Option.some.inj (hold.symm.trans ha)
    exact Or.inl hnew
  · intro hlost
    rw [hlost] at hold
    cases hold
  · exact fun hlost => absurd hlost hnot
  · intro a ha
    obtain rfl : i = a := Option.some.inj (hnew.symm.trans ha)
    exact hheard
  · exact fun a ha => absurd ha (hready a)

theorem Inv.sendHandshakeReply (h : Inv cfg text arrivals s) :
    Inv cfg text arrivals (s.sendHandshakeReply cfg k) := by
  unfold State.sendHandshakeReply
  split
  · rename_i i hthread
    split
    · rename_i c hc
      refine ⟨h.holding.proceed (k := k) (i := i) (t := .receiving i 0) (by rw [hthread]; rfl) rfl
        (fun j hj => absurd hj (Nat.not_lt_zero j)) ?_ (by simp [hthread]) rfl rfl rfl rfl rfl,
        reported_of h.reported (k := k) (t := .receiving i 0) (by simp) rfl rfl,
        lines_of (k := k) h.line (extends_refl _) (fun j hj => ?_) ?_⟩
      · rintro a b hab
        cases hab
        exact cfg.gateways_pos
      · simp only [Queues.push, Function.update_of_ne hj, and_self]
      · have hline := h.line k
        rw [State.Line, hthread] at hline
        simpa only [State.Line, Queues.push_self, Function.update_self] using
          hline.sendHandshakeReply hc
    · exact h
  · exact h

theorem Inv.receiveGatewayInfo (h : Inv cfg text arrivals s) :
    Inv cfg text arrivals (s.receiveGatewayInfo cfg k) := by
  unfold State.receiveGatewayInfo
  split
  · rename_i i index x rest hthread hlink
    have hline := h.line k
    rw [State.Line, hthread, hlink] at hline
    have howner : (s.thread k).owner = some i := by rw [hthread]; rfl
    have hsocket := h.holding.owner k i howner
    have hindex := h.holding.index k i index hthread
    have hfound := h.holding.cluster k i (Thread.cluster_of_owner howner)
    have hfailed : Inv cfg text arrivals { s with
        thread := Function.update s.thread k .failed
        toServer := Function.update s.toServer k rest } := by
      have hgone := h.fail (by simp [hthread]) (by simp [hthread])
        (fun a ha => by
          obtain rfl := Option.some.inj (hfound.symm.trans ha)
          rw [hsocket]
          rfl) rest (s.toMaster k) (fun _ hm => hm)
      rwa [Function.update_eq_self] at hgone
    dsimp only
    split
    · rename_i clusterRank rank addresses
      split
      · split
        · rename_i held hheld
          -- the addresses are those of this gateway
          have hx := hline.expected.resolve_left (by simp)
          rw [MasterGateway.info, ToServer.gatewayInfo.injEq] at hx
          obtain ⟨rfl, rfl, rfl⟩ := hx
          obtain ⟨hhears, hmore⟩ := h.holding.hear hsocket hheld
          refine ⟨hhears.proceed (k := k) (i := i)
            (t := if index + 1 < cfg.numberOfGatewaysPerCluster then .receiving i (index + 1)
              else .sending i 0) howner ?_ ?_ ?_ ?_ rfl rfl rfl rfl rfl,
            reported_of h.reported (k := k)
              (t := if index + 1 < cfg.numberOfGatewaysPerCluster then .receiving i (index + 1)
                else .sending i 0) (fun a => by split <;> simp) rfl rfl,
            lines_of (k := k) h.line hmore (fun j hj => ?_) ?_⟩
          · split <;> rfl
          · intro b hb
            have hb : b < index + 1 := by
              split at hb
              · exact hb
              · rename_i hlast
                have hall : b < cfg.numberOfGatewaysPerCluster := hb
                omega
            simp only [Function.update_self]
            by_cases hbi : b = index
            · rw [hbi, Function.update_self]
              rfl
            · rw [Function.update_of_ne hbi]
              refine h.holding.heard k i howner b ?_
              rw [hthread]
              exact show b < index by omega
          · intro a b hab
            split at hab
            · cases hab
              assumption
            · cases hab
          · simp [hthread]
          · simp only [Function.update_of_ne hj, and_self]
          · simpa only [State.Line, Function.update_self] using
              (hline.receiveGatewayInfo hindex).extend hmore
        · exact hfailed
      · exact hfailed
    · exact hfailed
  · exact h

theorem Inv.sendGatewayInfo (h : Inv cfg text arrivals s) :
    Inv cfg text arrivals (s.sendGatewayInfo cfg k) := by
  unfold State.sendGatewayInfo
  split
  · rename_i i number hthread
    split
    · rename_i p hp
      split
      · rename_i held hheld
        have howner : (s.thread k).owner = some i := by rw [hthread]; rfl
        have hheard := h.holding.heard k i howner
        rw [hthread] at hheard
        refine ⟨h.holding.proceed (k := k) (i := i) (t := .sending i (number + 1)) howner rfl
          hheard (by simp) (by simp [hthread]) rfl rfl rfl rfl rfl,
          reported_of h.reported (k := k) (t := .sending i (number + 1)) (by simp) rfl rfl,
          lines_of (k := k) h.line (extends_refl _) (fun j hj => ?_) ?_⟩
        · simp only [Queues.push, Function.update_of_ne hj, and_self]
        · have hline := h.line k
          rw [State.Line, hthread] at hline
          simpa only [State.Line, Queues.push_self, Function.update_self] using
            hline.sendGatewayInfo hp hheld
      · exact h
    · exact h
  · exact h

theorem Inv.setReady (h : Inv cfg text arrivals s) :
    Inv cfg text arrivals (s.setReady cfg k) := by
  unfold State.setReady
  split
  · rename_i i number hthread
    split
    · exact h
    · rename_i hlast
      have howner : (s.thread k).owner = some i := by rw [hthread]; rfl
      have hheard := h.holding.heard k i howner
      rw [hthread] at hheard
      have hgone : Holding cfg text arrivals { s with
          thread := Function.update s.thread k (.finished i) } :=
        h.holding.proceed (k := k) (i := i) (t := .finished i) howner rfl hheard (by simp)
          (by simp [hthread]) rfl rfl rfl rfl rfl
      refine ⟨{ hgone with ready := fun a ha => ?_, closed := fun hclosed a ha => ?_ },
        fun l a hl => ?_, lines_of (k := k) h.line (extends_refl _) (fun j hj => ?_) ?_⟩
      · by_cases hai : a = i
        · subst hai
          exact ⟨k, Function.update_self _ _ _⟩
        · simp only [Function.update_of_ne hai] at ha
          exact hgone.ready a ha
      · by_cases hai : a = i
        · subst hai
          simp only [Function.update_self]
        · simp only [Function.update_of_ne hai]
          exact h.holding.closed hclosed a ha
      · by_cases hlk : l = k
        · subst hlk
          simp only [Function.update_self, Thread.finished.injEq] at hl
          simp only [← hl, Function.update_self]
        · simp only [Function.update_of_ne hlk] at hl
          by_cases hai : a = i
          · subst hai
            simp only [Function.update_self]
          · simp only [Function.update_of_ne hai]
            exact h.reported l a hl
      · simp only [Function.update_of_ne hj, and_self]
      · have hline := h.line k
        rw [State.Line, hthread] at hline
        simpa only [State.Line, Function.update_self] using hline.setReady hlast
  · exact h

theorem Inv.start (h : Inv cfg text arrivals s) : Inv cfg text arrivals (s.start cfg) := by
  unfold State.start
  split
  · exact h
  · split
    · rename_i hready
      have hall := List.all_eq_true.mp hready
      exact ⟨{ h.holding with closed := fun _ i hi => hall i (List.mem_range.mpr hi) },
        h.reported, h.line⟩
    · exact h

/-- **Every event keeps the invariant.** -/
theorem Inv.change (h : Inv cfg text arrivals s) {e : Event} (hpossible : e.Possible arrivals) :
    Inv cfg text arrivals (s.change cfg text arrivals e) := by
  cases e with
  | accept k => exact h.accept
  | sendHandshake k => exact h.sendHandshake
  | getCluster k => exact h.getCluster
  | setConnection k => exact h.setConnection hpossible
  | sendHandshakeReply k => exact h.sendHandshakeReply
  | receiveReply k => exact h.receiveReply
  | sendAddresses k => exact h.sendAddresses
  | receiveGatewayInfo k => exact h.receiveGatewayInfo
  | sendGatewayInfo k => exact h.sendGatewayInfo
  | setReady k => exact h.setReady
  | receiveGateway k => exact h.receiveGateway
  | start => exact h.start

end SignUp

end EsalsaMpi
