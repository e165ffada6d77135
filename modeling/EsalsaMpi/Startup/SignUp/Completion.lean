import EsalsaMpi.Library.Endings
import EsalsaMpi.Library.Shares
import EsalsaMpi.Startup.SignUp.Invariant

/-!
# The sign-up comes to its end

Every run of the sign-up is finite, with a bound for all of them, in whatever order the master
gateways come and the threads of the server take their steps.  Everybody has signed up at the end
of every run if and only if every cluster has a master gateway of its name, every master gateway
of its name fits, and the number of all application processes is an `int` (`signs_up_iff`).  For a
master gateway that does not fit may be the first of its name; its thread fails, or waits for ever,
and the cluster stays connected with it.
-/

namespace EsalsaMpi

namespace SignUp

open Networks Startup CommandLine Endings Shares

variable {cfg : Configuration} {text : List UInt8 → String} {arrivals : Arrivals}
  {s s' : State} {i j k : Nat} {c : Cluster}

/-! ### The steps left -/

/-- The steps left for a thread. -/
def Thread.stepsLeft (cfg : Configuration) : Thread → Nat
  | .idle => cfg.numberOfGatewaysPerCluster + (allGateways cfg).length + 6
  | .accepted => cfg.numberOfGatewaysPerCluster + (allGateways cfg).length + 5
  | .found _ => cfg.numberOfGatewaysPerCluster + (allGateways cfg).length + 4
  | .connected _ => cfg.numberOfGatewaysPerCluster + (allGateways cfg).length + 3
  | .receiving _ index => (cfg.numberOfGatewaysPerCluster - index) + (allGateways cfg).length + 2
  | .sending _ number => ((allGateways cfg).length - number) + 1
  | .finished _ => 0
  | .failed => 0

/-- The steps left for a master gateway. -/
def Master.stepsLeft (cfg : Configuration) : Master → Nat
  | .connecting => cfg.numberOfGatewaysPerCluster + (allGateways cfg).length + 4
  | .connected => cfg.numberOfGatewaysPerCluster + (allGateways cfg).length + 3
  | .waiting => cfg.numberOfGatewaysPerCluster + (allGateways cfg).length + 2
  | .sending _ src => (cfg.numberOfGatewaysPerCluster - src) + (allGateways cfg).length + 1
  | .receiving _ table => (allGateways cfg).length - table.length
  | .finished _ _ => 0
  | .failed => 0

/-- **The steps left.** -/
def State.stepsLeft (cfg : Configuration) (arrivals : Arrivals) (s : State) : Nat :=
  total (Finset.range arrivals.number) (Thread.stepsLeft cfg) s.thread +
    total (Finset.range arrivals.number) (Master.stepsLeft cfg) s.master +
    if s.closed then 0 else 1

/-- Nothing changes, or less is left. -/
def Shrinks (cfg : Configuration) (arrivals : Arrivals) (s s' : State) : Prop :=
  s' = s ∨ s'.stepsLeft cfg arrivals < s.stepsLeft cfg arrivals

/-- A thread goes on. -/
theorem shrinks_thread (hk : k < arrivals.number) {t : Thread}
    (hless : t.stepsLeft cfg < (s.thread k).stepsLeft cfg)
    (hthread : s'.thread = Function.update s.thread k t) (hmaster : s'.master = s.master)
    (hclosed : s'.closed = s.closed) : Shrinks cfg arrivals s s' := by
  have hthreads := total_update (Finset.mem_range.mpr hk) (Thread.stepsLeft cfg) s.thread t
  right
  rw [State.stepsLeft, State.stepsLeft, hthread, hmaster, hclosed]
  omega

/-- A master gateway goes on. -/
theorem shrinks_master (hk : k < arrivals.number) {m : Master}
    (hless : m.stepsLeft cfg < (s.master k).stepsLeft cfg)
    (hmaster : s'.master = Function.update s.master k m) (hthread : s'.thread = s.thread)
    (hclosed : s'.closed = s.closed) : Shrinks cfg arrivals s s' := by
  have hmasters := total_update (Finset.mem_range.mpr hk) (Master.stepsLeft cfg) s.master m
  right
  rw [State.stepsLeft, State.stepsLeft, hthread, hmaster, hclosed]
  omega

theorem accept_shrinks (hk : k < arrivals.number) : Shrinks cfg arrivals s (s.accept k) := by
  unfold State.accept
  split
  · rename_i hthread hmaster
    split
    · exact Or.inl rfl
    · have hthreads := total_update (Finset.mem_range.mpr hk) (Thread.stepsLeft cfg) s.thread
        .accepted
      have hmasters := total_update (Finset.mem_range.mpr hk) (Master.stepsLeft cfg) s.master
        .connected
      simp only [hthread, Thread.stepsLeft] at hthreads
      simp only [hmaster, Master.stepsLeft] at hmasters
      right
      simp only [State.stepsLeft]
      omega
  · exact Or.inl rfl

theorem getCluster_shrinks (hk : k < arrivals.number) :
    Shrinks cfg arrivals s (s.getCluster cfg text k) := by
  unfold State.getCluster
  split
  · rename_i hthread hlink
    have hfailed : (Thread.failed).stepsLeft cfg < (s.thread k).stepsLeft cfg := by
      rw [hthread]
      exact Nat.succ_pos _
    dsimp only
    split
    · split
      · split
        · refine shrinks_thread hk ?_ rfl rfl rfl
          rw [hthread]
          exact Nat.lt_succ_self _
        · exact shrinks_thread hk hfailed rfl rfl rfl
      · exact shrinks_thread hk hfailed rfl rfl rfl
    · exact shrinks_thread hk hfailed rfl rfl rfl
  · exact Or.inl rfl

theorem setConnection_shrinks (hk : k < arrivals.number) :
    Shrinks cfg arrivals s (s.setConnection k) := by
  unfold State.setConnection
  split
  · rename_i i hthread
    split
    · refine shrinks_thread hk ?_ rfl rfl rfl
      rw [hthread]
      exact Nat.succ_pos _
    · refine shrinks_thread hk ?_ rfl rfl rfl
      rw [hthread]
      exact Nat.lt_succ_self _
  · exact Or.inl rfl

theorem sendHandshakeReply_shrinks (hk : k < arrivals.number) :
    Shrinks cfg arrivals s (s.sendHandshakeReply cfg k) := by
  unfold State.sendHandshakeReply
  split
  · rename_i i hthread
    split
    · refine shrinks_thread hk ?_ rfl rfl rfl
      rw [hthread]
      exact Nat.lt_succ_self _
    · exact Or.inl rfl
  · exact Or.inl rfl

theorem Inv.receiveGatewayInfo_shrinks (h : Inv cfg text arrivals s) (hk : k < arrivals.number) :
    Shrinks cfg arrivals s (s.receiveGatewayInfo cfg k) := by
  unfold State.receiveGatewayInfo
  split
  · rename_i i index x rest hthread hlink
    have hindex := h.holding.index k i index hthread
    have hfailed : (Thread.failed).stepsLeft cfg < (s.thread k).stepsLeft cfg := by
      rw [hthread]
      exact Nat.succ_pos _
    dsimp only
    split
    · split
      · split
        · refine shrinks_thread hk ?_ rfl rfl rfl
          rw [hthread]
          split
          · simp only [Thread.stepsLeft]
            omega
          · simp only [Thread.stepsLeft]
            omega
        · exact shrinks_thread hk hfailed rfl rfl rfl
      · exact shrinks_thread hk hfailed rfl rfl rfl
    · exact shrinks_thread hk hfailed rfl rfl rfl
  · exact Or.inl rfl

theorem sendGatewayInfo_shrinks (hk : k < arrivals.number) :
    Shrinks cfg arrivals s (s.sendGatewayInfo cfg k) := by
  unfold State.sendGatewayInfo
  split
  · rename_i i number hthread
    split
    · rename_i p hp
      have hlt := (List.getElem?_eq_some_iff.mp hp).1
      split
      · refine shrinks_thread hk ?_ rfl rfl rfl
        rw [hthread]
        simp only [Thread.stepsLeft]
        omega
      · exact Or.inl rfl
    · exact Or.inl rfl
  · exact Or.inl rfl

theorem setReady_shrinks (hk : k < arrivals.number) :
    Shrinks cfg arrivals s (s.setReady cfg k) := by
  unfold State.setReady
  split
  · rename_i i number hthread
    split
    · exact Or.inl rfl
    · refine shrinks_thread hk ?_ rfl rfl rfl
      rw [hthread]
      exact Nat.succ_pos _
  · exact Or.inl rfl

theorem start_shrinks : Shrinks cfg arrivals s (s.start cfg) := by
  unfold State.start
  split
  · exact Or.inl rfl
  · rename_i hopen
    split
    · right
      simp only [State.stepsLeft, if_neg hopen, if_true]
      exact Nat.lt_succ_self _
    · exact Or.inl rfl

theorem sendHandshake_shrinks (hk : k < arrivals.number) :
    Shrinks cfg arrivals s (s.sendHandshake arrivals k) := by
  unfold State.sendHandshake
  split
  · rename_i hmaster
    refine shrinks_master hk ?_ rfl rfl rfl
    rw [hmaster]
    exact Nat.lt_succ_self _
  · exact Or.inl rfl

theorem receiveReply_shrinks (hk : k < arrivals.number) :
    Shrinks cfg arrivals s (s.receiveReply arrivals k) := by
  unfold State.receiveReply
  split
  · rename_i hmaster hlink
    have hfailed : (Master.failed).stepsLeft cfg < (s.master k).stepsLeft cfg := by
      rw [hmaster]
      exact Nat.succ_pos _
    dsimp only
    split
    · split
      · refine shrinks_master hk ?_ rfl rfl rfl
        rw [hmaster]
        exact Nat.lt_succ_self _
      · exact shrinks_master hk hfailed rfl rfl rfl
    · exact shrinks_master hk hfailed rfl rfl rfl
  · exact Or.inl rfl

theorem Inv.sendAddresses_shrinks (h : Inv cfg text arrivals s) (hk : k < arrivals.number) :
    Shrinks cfg arrivals s (s.sendAddresses arrivals k) := by
  unfold State.sendAddresses
  split
  · rename_i numbers src hmaster
    have hsound := (h.line k).sound
    rw [hmaster] at hsound
    obtain ⟨hknows, hsrc⟩ := hsound
    refine shrinks_master hk ?_ rfl rfl rfl
    rw [hmaster]
    split
    · simp only [Master.stepsLeft]
      omega
    · simp only [Master.stepsLeft, List.length_nil]
      omega
  · exact Or.inl rfl

theorem Inv.receiveGateway_shrinks (h : Inv cfg text arrivals s) (hk : k < arrivals.number) :
    Shrinks cfg arrivals s (s.receiveGateway k) := by
  unfold State.receiveGateway
  split
  · rename_i numbers table x rest hmaster hlink
    have hsound := (h.line k).sound
    rw [hmaster] at hsound
    obtain ⟨hknows, htable⟩ := hsound
    dsimp only
    split
    · refine shrinks_master hk ?_ rfl rfl rfl
      rw [hmaster]
      split
      · simp only [Master.stepsLeft, List.length_append, List.length_singleton]
        omega
      · simp only [Master.stepsLeft]
        omega
    · refine shrinks_master hk ?_ rfl rfl rfl
      rw [hmaster]
      simp only [Master.stepsLeft]
      omega
  · exact Or.inl rfl

/-- **Every event that changes something leaves less to do.** -/
theorem Inv.shrinks (h : Inv cfg text arrivals s) {e : Event} (hpossible : e.Possible arrivals) :
    Shrinks cfg arrivals s (s.change cfg text arrivals e) := by
  cases e with
  | accept k => exact accept_shrinks hpossible
  | sendHandshake k => exact sendHandshake_shrinks hpossible
  | getCluster k => exact getCluster_shrinks hpossible
  | setConnection k => exact setConnection_shrinks hpossible
  | sendHandshakeReply k => exact sendHandshakeReply_shrinks hpossible
  | receiveReply k => exact receiveReply_shrinks hpossible
  | sendAddresses k => exact h.sendAddresses_shrinks hpossible
  | receiveGatewayInfo k => exact h.receiveGatewayInfo_shrinks hpossible
  | sendGatewayInfo k => exact sendGatewayInfo_shrinks hpossible
  | setReady k => exact setReady_shrinks hpossible
  | receiveGateway k => exact h.receiveGateway_shrinks hpossible
  | start => exact start_shrinks

theorem Inv.moves (h : Inv cfg text arrivals s) (hmoves : Moves cfg text arrivals s s') :
    Inv cfg text arrivals s' ∧ s'.stepsLeft cfg arrivals < s.stepsLeft cfg arrivals := by
  obtain ⟨hne, e, hpossible, rfl⟩ := hmoves
  exact ⟨h.change hpossible, (h.shrinks hpossible).resolve_left hne⟩

/-! ### If all master gateways fit -/

/-- **Nobody gives up**: a master gateway does not before its thread, and no thread does that has
connected a cluster. -/
structure Kept (s : State) : Prop where
  master : ∀ k, s.thread k ≠ .failed → s.master k ≠ .failed
  owner : ∀ i k, s.socket i = some k → s.thread k ≠ .failed

/-- Nobody else gives up. -/
theorem Kept.of (h : Kept s) (hback : ∀ k, s.thread k = .failed → s'.thread k = .failed)
    (hmaster : ∀ k, s'.master k = .failed → s.master k = .failed ∨ s'.thread k = .failed)
    (howner : ∀ i k, s'.socket i = some k → s'.thread k ≠ .failed) : Kept s' where
  master k hthread hlost := by
    rcases hmaster k hlost with hlost | hlost
    · exact h.master k (fun hold => hthread (hback k hold)) hlost
    · exact hthread hlost
  owner := howner

/-- A thread goes on that has not failed. -/
theorem Kept.thread (h : Kept s) {t : Thread} (hold : s.thread k ≠ .failed) (hnew : t ≠ .failed)
    (hthread : s'.thread = Function.update s.thread k t)
    (hmaster : ∀ j, s'.master j = .failed → s.master j = .failed)
    (hsocket : ∀ i j, s'.socket i = some j → s.socket i = some j ∨ j = k) : Kept s' := by
  have hfailed : ∀ j, s'.thread j = .failed ↔ s.thread j = .failed := by
    intro j
    by_cases hj : j = k
    · subst hj
      rw [hthread, Function.update_self]
      exact iff_of_false hnew hold
    · rw [hthread, Function.update_of_ne hj]
  refine h.of (fun j hj => (hfailed j).mpr hj) (fun j hj => Or.inl (hmaster j hj)) ?_
  intro i j hij hj
  rw [hfailed] at hj
  rcases hsocket i j hij with hij | rfl
  · exact h.owner i j hij hj
  · exact hold hj

/-- A thread fails that has not connected a cluster. -/
theorem Kept.fail (h : Kept s) (hinv : Inv cfg text arrivals s)
    (howner : (s.thread k).owner = none) (hold : s.thread k ≠ .failed)
    (hthread : s'.thread = Function.update s.thread k .failed) (hmaster : s'.master = s.master)
    (hsocket : s'.socket = s.socket) : Kept s' := by
  refine h.of (fun j hj => ?_) (fun j hj => ?_) (fun i j hij hj => ?_)
  · rw [hthread]
    by_cases hjk : j = k
    · rw [hjk, Function.update_self]
    · rwa [Function.update_of_ne hjk]
  · rw [hmaster] at hj
    exact Or.inl hj
  · rw [hsocket] at hij
    rw [hthread] at hj
    by_cases hjk : j = k
    · subst hjk
      rcases (hinv.holding.socket i j hij).2.2 with hown | hlost
      · rw [howner] at hown
        cases hown
      · exact hold hlost
    · rw [Function.update_of_ne hjk] at hj
      exact h.owner i j hij hj

/-- A master gateway goes on that has not failed. -/
theorem Kept.masterGoesOn (h : Kept s) {m : Master} (hnew : m ≠ .failed)
    (hmaster : s'.master = Function.update s.master k m) (hthread : s'.thread = s.thread)
    (hsocket : s'.socket = s.socket) : Kept s' := by
  refine h.of (fun j hj => by rwa [hthread]) (fun j hj => ?_) (fun i j hij => ?_)
  · rw [hmaster] at hj
    by_cases hjk : j = k
    · rw [hjk, Function.update_self] at hj
      exact absurd hj hnew
    · rw [Function.update_of_ne hjk] at hj
      exact Or.inl hj
  · rw [hthread]
    rw [hsocket] at hij
    exact h.owner i j hij

/-- The reply of the cluster that it fits. -/
theorem Fits.accepts (h : Fits cfg arrivals i k c) (hc : cfg.clusters[i]? = some c) :
    (numbersFor cfg i c).reply.accepted = true ∧
      (numbersFor cfg i c).reply.localApplicationSize + (numbersFor cfg i c).reply.gatewayCount =
        UInt32.ofNat (arrivals.gateway k).size :=
  ⟨(Configuration.replyFor_accepted_iff hc).mpr h.allowed, h.size⟩

/-- The number of addresses is an `int`. -/
theorem MasterGateway.count_pos (g : MasterGateway) (index : Nat) :
    0 < (UInt32.ofNat (g.addresses index).length).toInt32.toInt := by
  rw [toInt_length (g.addresses_lt index)]
  exact Int.natCast_pos.mpr (g.addresses_pos index)

theorem Kept.receiveReply (h : Kept s) (hinv : Inv cfg text arrivals s)
    (hall : Everyone cfg text arrivals) (hk : k < arrivals.number) :
    Kept (s.receiveReply arrivals k) := by
  unfold State.receiveReply
  split
  · rename_i x rest hmaster hlink
    have hline := hinv.line k
    rw [State.Line, hmaster, hlink] at hline
    -- a master gateway fails only if its thread has
    have hlost : s.thread k = .failed → ∀ toMaster toServer, Kept { s with
        master := Function.update s.master k .failed
        toMaster := toMaster
        toServer := toServer } := by
      intro hfailed toMaster toServer
      refine h.of (fun j hj => hj) (fun j hj => ?_) h.owner
      by_cases hjk : j = k
      · rw [hjk]
        exact Or.inr hfailed
      · simp only [Function.update_of_ne hjk] at hj
        exact Or.inl hj
    -- what another thread has written is the reply for the cluster
    have hreply : s.thread k ≠ .failed → ∃ i, (s.thread k).cluster = some i ∧
        x = .accepted (numbersAt cfg i) := by
      intro hthread
      have hwritten : (s.thread k).written cfg s.gateways = x :: rest :=
        hline.written hthread (by simp)
      cases hcase : s.thread k with
      | failed => exact absurd hcase hthread
      | receiving i index =>
          rw [hcase, Thread.written, List.cons.injEq] at hwritten
          exact ⟨i, rfl, hwritten.1.symm⟩
      | sending i number =>
          rw [hcase, Thread.written, List.cons.injEq] at hwritten
          exact ⟨i, rfl, hwritten.1.symm⟩
      | finished i =>
          rw [hcase, Thread.written, List.cons.injEq] at hwritten
          exact ⟨i, rfl, hwritten.1.symm⟩
      | _ => simp [hcase, Thread.written] at hwritten
    dsimp only
    split
    · rename_i numbers
      split
      · exact h.masterGoesOn (k := k) (m := .sending numbers 0) (by simp) rfl rfl rfl
      · rename_i hrefused
        by_cases hthread : s.thread k = .failed
        · exact hlost hthread _ _
        · obtain ⟨i, hcluster, hx⟩ := hreply hthread
          cases hx
          have hfound := hinv.holding.cluster k i hcluster
          have hc := List.getElem?_eq_getElem (found_lt hfound)
          rw [numbersAt_eq hc] at hrefused
          exact absurd ((hall.fits k hk i _ hfound hc).accepts hc) hrefused
    · rename_i hother
      by_cases hthread : s.thread k = .failed
      · exact hlost hthread _ _
      · obtain ⟨i, _, rfl⟩ := hreply hthread
        exact absurd rfl (hother _)
  · exact h

theorem Kept.receiveGateway (h : Kept s) (hinv : Inv cfg text arrivals s) :
    Kept (s.receiveGateway k) := by
  unfold State.receiveGateway
  split
  · rename_i numbers table x rest hmaster hlink
    have hline := hinv.line k
    rw [State.Line, hmaster, hlink] at hline
    dsimp only
    split
    · refine h.masterGoesOn (k := k) (m := _) ?_ rfl rfl rfl
      split <;> simp
    · rename_i hother
      have hlost := hline.confuse hother
      refine h.of (fun j hj => hj) (fun j hj => ?_) h.owner
      by_cases hjk : j = k
      · rw [hjk]
        exact Or.inr hlost
      · simp only [Function.update_of_ne hjk] at hj
        exact Or.inl hj
  · exact h

theorem Kept.getCluster (h : Kept s) (hinv : Inv cfg text arrivals s) :
    Kept (s.getCluster cfg text k) := by
  unfold State.getCluster
  split
  · rename_i hthread hlink
    have hold : s.thread k ≠ .failed := by simp [hthread]
    have howner : (s.thread k).owner = none := by rw [hthread]; rfl
    dsimp only
    split
    · split
      · split
        · exact h.thread (t := .found _) hold (by simp) rfl (fun _ hj => hj)
            fun _ _ hij => Or.inl hij
        · exact h.fail hinv howner hold rfl rfl rfl
      · exact h.fail hinv howner hold rfl rfl rfl
    · exact h.fail hinv howner hold rfl rfl rfl
  · exact h

theorem Kept.setConnection (h : Kept s) (hinv : Inv cfg text arrivals s) :
    Kept (s.setConnection k) := by
  unfold State.setConnection
  split
  · rename_i i hthread
    have hold : s.thread k ≠ .failed := by simp [hthread]
    split
    · exact h.fail hinv (by rw [hthread]; rfl) hold rfl rfl rfl
    · refine h.thread (t := .connected i) hold (by simp) rfl (fun _ hj => hj) fun a j hij => ?_
      by_cases ha : a = i
      · subst ha
        simp only [Function.update_self, Option.some.injEq] at hij
        exact Or.inr hij.symm
      · simp only [Function.update_of_ne ha] at hij
        exact Or.inl hij
  · exact h

/-- **The addresses of a master gateway that fits** are taken. -/
theorem Kept.receiveGatewayInfo (h : Kept s) (hinv : Inv cfg text arrivals s)
    (hall : Everyone cfg text arrivals) : Kept (s.receiveGatewayInfo cfg k) := by
  unfold State.receiveGatewayInfo
  split
  · rename_i i index x rest hthread hlink
    have hline := hinv.line k
    rw [State.Line, hthread, hlink] at hline
    have hold : s.thread k ≠ .failed := by simp [hthread]
    have howner : (s.thread k).owner = some i := by rw [hthread]; rfl
    have hfound := hinv.holding.cluster k i (Thread.cluster_of_owner howner)
    have hc := List.getElem?_eq_getElem (found_lt hfound)
    have hk := (hinv.holding.socket i k (hinv.holding.owner k i howner)).1
    have hfits := hall.fits k hk i _ hfound hc
    have hindex := hinv.holding.index k i index hthread
    obtain ⟨hlost, _⟩ | rfl := hline.expected
    · exact absurd hlost (h.master k hold)
    · obtain ⟨held, hheld⟩ := Option.isSome_iff_exists.mp (hfits.network index hindex)
      have hcheck : (numbersAt cfg i).reply.clusterRank = UInt32.ofNat i ∧
          UInt32.ofNat index = UInt32.ofNat index ∧
            0 < (UInt32.ofNat ((arrivals.gateway k).addresses index).length).toInt32.toInt := by
        refine ⟨?_, rfl, MasterGateway.count_pos _ _⟩
        rw [numbersAt_eq hc]
        rfl
      dsimp only [MasterGateway.info]
      rw [if_pos hcheck, show holds cfg i index ((arrivals.gateway k).addresses index) = some held
        from hheld]
      refine h.thread (t := _) hold ?_ rfl (fun _ hj => hj) fun _ _ hij => Or.inl hij
      split <;> simp
  · exact h

/-- **Every event keeps it.** -/
theorem Kept.change (h : Kept s) (hinv : Inv cfg text arrivals s)
    (hall : Everyone cfg text arrivals) {e : Event} (hpossible : e.Possible arrivals) :
    Kept (s.change cfg text arrivals e) := by
  cases e with
  | accept k =>
      simp only [State.change, State.accept]
      split
      · rename_i hthread hmaster
        split
        · exact h
        · refine h.thread (t := .accepted) (k := k) (by simp [hthread]) (by simp) rfl
            (fun j hj => ?_) fun _ _ hij => Or.inl hij
          by_cases hjk : j = k
          · subst hjk
            simp only [Function.update_self] at hj
            cases hj
          · simpa only [Function.update_of_ne hjk] using hj
      · exact h
  | sendHandshake k =>
      simp only [State.change, State.sendHandshake]
      split
      · exact h.masterGoesOn (k := k) (m := .waiting) (by simp) rfl rfl rfl
      · exact h
  | getCluster k => exact h.getCluster hinv
  | setConnection k => exact h.setConnection hinv
  | sendHandshakeReply k =>
      simp only [State.change, State.sendHandshakeReply]
      split
      · rename_i i hthread
        split
        · exact h.thread (k := k) (t := .receiving i 0) (by simp [hthread]) (by simp) rfl
            (fun _ hj => hj) fun _ _ hij => Or.inl hij
        · exact h
      · exact h
  | receiveReply k => exact h.receiveReply hinv hall hpossible
  | sendAddresses k =>
      simp only [State.change, State.sendAddresses]
      split
      · refine h.masterGoesOn (k := k) (m := _) ?_ rfl rfl rfl
        split <;> simp
      · exact h
  | receiveGatewayInfo k => exact h.receiveGatewayInfo hinv hall
  | sendGatewayInfo k =>
      simp only [State.change, State.sendGatewayInfo]
      split
      · rename_i i number hthread
        split
        · split
          · exact h.thread (k := k) (t := .sending i (number + 1)) (by simp [hthread]) (by simp)
              rfl (fun _ hj => hj) fun _ _ hij => Or.inl hij
          · exact h
        · exact h
      · exact h
  | setReady k =>
      simp only [State.change, State.setReady]
      split
      · rename_i i number hthread
        split
        · exact h
        · exact h.thread (k := k) (t := .finished i) (by simp [hthread]) (by simp) rfl
            (fun _ hj => hj) fun _ _ hij => Or.inl hij
      · exact h
  | receiveGateway k => exact h.receiveGateway hinv
  | start =>
      simp only [State.change, State.start]
      split
      · exact h
      · split
        · exact { h with }
        · exact h

/-! ### Where nothing can go on -/

/-- No thread and no master gateway can go on. -/
def Stuck (cfg : Configuration) (text : List UInt8 → String) (arrivals : Arrivals)
    (s : State) : Prop :=
  ∀ e : Event, e.Possible arrivals → s.change cfg text arrivals e = s

theorem stuck_or_moves (cfg : Configuration) (text : List UInt8 → String) (arrivals : Arrivals)
    (s : State) : Stuck cfg text arrivals s ∨ ∃ s', Moves cfg text arrivals s s' := by
  by_cases hstuck : Stuck cfg text arrivals s
  · exact Or.inl hstuck
  · right
    unfold Stuck at hstuck
    push Not at hstuck
    obtain ⟨e, hpossible, hne⟩ := hstuck
    exact ⟨_, hne, e, hpossible, rfl⟩

section Stuck

variable (hstuck : Stuck cfg text arrivals s)
include hstuck

/-- A master gateway has sent what it has to send. -/
theorem Stuck.master (hk : k < arrivals.number) :
    s.master k ≠ .connected ∧ ∀ numbers src, s.master k ≠ .sending numbers src := by
  constructor
  · intro hmaster
    have hgone := congrFun (congrArg State.master (hstuck (.sendHandshake k) hk)) k
    simp only [State.change, State.sendHandshake, hmaster, Function.update_self] at hgone
    cases hgone
  · intro numbers src hmaster
    have hgone := congrFun (congrArg State.toServer (hstuck (.sendAddresses k) hk)) k
    simp only [State.change, State.sendAddresses, hmaster, Queues.push_self,
      List.append_right_eq_self] at hgone
    cases hgone

/-- Without messages for it a master gateway waits. -/
theorem Stuck.waiting (hk : k < arrivals.number) (hmaster : s.master k = .waiting) :
    s.toMaster k = [] := by
  cases hlink : s.toMaster k with
  | nil => rfl
  | cons x rest =>
      have hgone := congrFun (congrArg State.toMaster (hstuck (.receiveReply k) hk)) k
      simp only [State.change, State.receiveReply, hmaster, hlink] at hgone
      cases x with
      | accepted numbers =>
          dsimp only at hgone
          split at hgone
          · simp only [Function.update_self] at hgone
            exact absurd hgone.symm (List.cons_ne_self _ _)
          · simp only [Function.update_self] at hgone
            exact absurd hgone.symm (List.cons_ne_self _ _)
      | _ =>
          simp only [Function.update_self] at hgone
          exact absurd hgone.symm (List.cons_ne_self _ _)

theorem Stuck.receiving {numbers : Numbers} {table : List HeldInfo} (hk : k < arrivals.number)
    (hmaster : s.master k = .receiving numbers table) : s.toMaster k = [] := by
  cases hlink : s.toMaster k with
  | nil => rfl
  | cons x rest =>
      have hgone := congrFun (congrArg State.toMaster (hstuck (.receiveGateway k) hk)) k
      simp only [State.change, State.receiveGateway, hmaster, hlink] at hgone
      cases x <;>
        · simp only [Function.update_self] at hgone
          exact absurd hgone.symm (List.cons_ne_self _ _)

/-- If the server still accepts connections, it has accepted all, and a thread has connected a
cluster or failed. -/
theorem Stuck.connected (hinv : Inv cfg text arrivals s) (hclosed : s.closed = false)
    (hk : k < arrivals.number) (hfound : arrivals.found cfg text k = some i) :
    (s.socket i).isSome := by
  have hline := hinv.line k
  cases hthread : s.thread k with
  | idle =>
      have hmaster := hline.idle.mp hthread
      have hgone := congrFun (congrArg State.thread (hstuck (.accept k) hk)) k
      simp [State.change, State.accept, hthread, hmaster, hclosed] at hgone
  | accepted =>
      have hsent := hline.sent (by rw [hthread]; simp)
      rw [hthread] at hsent
      have hpast : s.master k ≠ .connecting := fun hmaster => by
        have hidle := hline.idle.mpr hmaster
        rw [hthread] at hidle
        cases hidle
      cases hlink : s.toServer k with
      | nil =>
          rw [hlink] at hsent
          cases hmaster : s.master k with
          | connecting => exact absurd hmaster hpast
          | connected => exact absurd hmaster (hstuck.master hk).1
          | _ => simp [hmaster, Master.sent, MasterGateway.infos, Thread.read] at hsent
      | cons x rest =>
          rw [State.Line, hthread, hlink] at hline
          have hgone := congrFun (congrArg State.toServer (hstuck (.getCluster k) hk)) k
          obtain ⟨rfl, _⟩ := hline.name
          simp only [State.change, State.getCluster, hthread, hlink] at hgone
          split at hgone
          · split at hgone
            · simp only [Function.update_self] at hgone
              exact absurd hgone.symm (List.cons_ne_self _ _)
            · simp only [Function.update_self] at hgone
              exact absurd hgone.symm (List.cons_ne_self _ _)
          · simp only [Function.update_self] at hgone
            exact absurd hgone.symm (List.cons_ne_self _ _)
  | found a =>
      have hgone := congrFun (congrArg State.thread (hstuck (.setConnection k) hk)) k
      simp only [State.change, State.setConnection, hthread] at hgone
      split at hgone
      · simp only [Function.update_self] at hgone
        cases hgone
      · simp only [Function.update_self] at hgone
        cases hgone
  | failed => exact hinv.holding.failed k i hthread hfound
  | _ =>
      have hcluster := hinv.holding.cluster k _ (by rw [hthread]; rfl)
      obtain rfl := Option.some.inj (hcluster.symm.trans hfound)
      rw [hinv.holding.owner k _ (by rw [hthread]; rfl)]
      rfl

/-- **The thread of a cluster** has heard of all its gateways. -/
theorem Stuck.heard (hinv : Inv cfg text arrivals s) (hkept : Kept s)
    (hsocket : s.socket i = some k) :
    (∃ number, s.thread k = .sending i number) ∨ s.thread k = .finished i := by
  obtain ⟨hk, hfound, howns⟩ := hinv.holding.socket i k hsocket
  have hlive := hkept.owner i k hsocket
  have hown := howns.resolve_right hlive
  have hline := hinv.line k
  cases hthread : s.thread k with
  | sending a number =>
      rw [hthread] at hown
      cases hown
      exact Or.inl ⟨number, rfl⟩
  | finished a =>
      rw [hthread] at hown
      cases hown
      exact Or.inr rfl
  | connected a =>
      rw [hthread] at hown
      cases hown
      have hc := List.getElem?_eq_getElem (found_lt hfound)
      have hgone := congrFun (congrArg State.thread (hstuck (.sendHandshakeReply k) hk)) k
      simp only [State.change, State.sendHandshakeReply, hthread, hc, Function.update_self]
        at hgone
      cases hgone
  | receiving a index =>
      rw [hthread] at hown
      cases hown
      have hindex := hinv.holding.index k i index hthread
      have hmaster := hkept.master k hlive
      -- the master gateway has sent all addresses
      have hall : (s.master k).sent (arrivals.gateway k) =
          (arrivals.gateway k).infos (numbersAt cfg i) cfg.numberOfGatewaysPerCluster := by
        have hwritten := hline.written hlive hmaster
        rw [hthread] at hwritten
        have hsound := hline.sound
        cases hcase : s.master k with
        | connected => exact absurd hcase (hstuck.master hk).1
        | sending numbers src => exact absurd hcase ((hstuck.master hk).2 numbers src)
        | failed => exact absurd hcase hmaster
        | connecting =>
            have hidle := hline.idle.mpr hcase
            rw [hthread] at hidle
            cases hidle
        | waiting =>
            rw [hcase, hstuck.waiting hk hcase] at hwritten
            cases hwritten
        | receiving numbers table =>
            rw [hcase] at hwritten hsound
            rw [Master.sent, hsound.1.counts.1]
            simp only [Thread.written, Master.received, List.cons_append, List.cons.injEq,
              ToMaster.accepted.injEq] at hwritten
            rw [hwritten.1]
        | finished numbers table =>
            rw [hcase] at hwritten hsound
            rw [Master.sent, hsound.1.counts.1]
            simp only [Thread.written, Master.received, List.cons_append, List.cons.injEq,
              ToMaster.accepted.injEq] at hwritten
            rw [hwritten.1]
      have hsent := hline.sent hlive
      rw [hall, hthread, Thread.read] at hsent
      cases hlink : s.toServer k with
      | nil =>
          have hlength := congrArg List.length hsent
          simp only [MasterGateway.infos, hlink, List.append_nil, List.length_cons,
            List.length_map, List.length_range] at hlength
          omega
      | cons x rest =>
          have hgone := congrFun (congrArg State.toServer
            (hstuck (.receiveGatewayInfo k) hk)) k
          simp only [State.change, State.receiveGatewayInfo, hthread, hlink] at hgone
          cases x with
          | gatewayInfo clusterRank rank addresses =>
              dsimp only at hgone
              split at hgone
              · split at hgone
                · simp only [Function.update_self] at hgone
                  exact absurd hgone.symm (List.cons_ne_self _ _)
                · simp only [Function.update_self] at hgone
                  exact absurd hgone.symm (List.cons_ne_self _ _)
              · simp only [Function.update_self] at hgone
                exact absurd hgone.symm (List.cons_ne_self _ _)
          | _ =>
              simp only [Function.update_self] at hgone
              exact absurd hgone.symm (List.cons_ne_self _ _)
  | _ =>
      rw [hthread] at hown
      cases hown

/-- **A thread that has heard of all gateways** is told of the others, and has finished. -/
theorem Stuck.ready (hinv : Inv cfg text arrivals s) (hkept : Kept s)
    (hconnected : ∀ i < cfg.clusters.length, (s.socket i).isSome)
    (hi : i < cfg.clusters.length) : ∃ k, s.socket i = some k ∧ s.thread k = .finished i := by
  obtain ⟨k, hsocket⟩ := Option.isSome_iff_exists.mp (hconnected i hi)
  refine ⟨k, hsocket, ?_⟩
  obtain ⟨hk, _, _⟩ := hinv.holding.socket i k hsocket
  rcases hstuck.heard hinv hkept hsocket with ⟨number, hthread⟩ | hfinished
  · cases hp : (allGateways cfg)[number]? with
    | some p =>
        obtain ⟨hcluster, hindex⟩ := mem_gatewayPairs.mp (List.mem_of_getElem? hp)
        obtain ⟨l, hl⟩ := Option.isSome_iff_exists.mp (hconnected p.1 hcluster)
        -- the thread of that cluster has heard of all its gateways
        have hheard : (s.gateways p.1 p.2).isSome := by
          rcases hstuck.heard hinv hkept hl with ⟨number', hother⟩ | hother
          · refine hinv.holding.heard l p.1 (by rw [hother]; rfl) p.2 ?_
            rw [hother]
            exact hindex
          · refine hinv.holding.heard l p.1 (by rw [hother]; rfl) p.2 ?_
            rw [hother]
            exact hindex
        obtain ⟨held, hheld⟩ := Option.isSome_iff_exists.mp hheard
        have hgone := congrFun (congrArg State.toMaster (hstuck (.sendGatewayInfo k) hk)) k
        simp only [State.change, State.sendGatewayInfo, hthread, hp, hheld, Queues.push_self,
          List.append_right_eq_self] at hgone
        cases hgone
    | none =>
        have hlast := List.getElem?_eq_none_iff.mp hp
        have hgone := congrFun (congrArg State.thread (hstuck (.setReady k) hk)) k
        simp only [State.change, State.setReady, hthread, if_neg (Nat.not_lt.mpr hlast),
          Function.update_self] at hgone
        cases hgone
  · exact hfinished

end Stuck

/-- All gateways are told of. -/
theorem map_some_of_tell {gateways : Nat → Nat → Option HeldInfo} {l : List (Nat × Nat)}
    {table : List HeldInfo} (hall : ∀ p ∈ l, (gateways p.1 p.2).isSome)
    (htable : table.map ToMaster.gateway =
      l.filterMap fun p => (gateways p.1 p.2).map ToMaster.gateway) :
    table.map some = l.map fun p => gateways p.1 p.2 := by
  induction l generalizing table with
  | nil =>
      cases table with
      | nil => rfl
      | cons held table => cases htable
  | cons p l ih =>
      obtain ⟨held, hheld⟩ := Option.isSome_iff_exists.mp (hall p List.mem_cons_self)
      rw [List.filterMap_cons_some (by rw [hheld]; rfl)] at htable
      cases table with
      | nil => cases htable
      | cons first table =>
          rw [List.map_cons, List.cons.injEq, ToMaster.gateway.injEq] at htable
          have hrest := ih (fun q hq => hall q (List.mem_cons_of_mem _ hq)) htable.2
          rw [List.map_cons, List.map_cons, hrest, htable.1, hheld]

theorem length_tell {gateways : Nat → Nat → Option HeldInfo} {number : Nat}
    (hall : ∀ p ∈ (allGateways cfg).take number, (gateways p.1 p.2).isSome) :
    (tell cfg gateways number).length = ((allGateways cfg).take number).length := by
  rw [tell, List.length_filterMap_eq_countP, List.countP_eq_length]
  intro p hp
  simpa using hall p hp

/-- **A master gateway whose thread has finished** has the whole table. -/
theorem Stuck.table (hstuck : Stuck cfg text arrivals s) (hinv : Inv cfg text arrivals s)
    (hkept : Kept s) (hk : k < arrivals.number) (hthread : s.thread k = .finished i)
    (hc : cfg.clusters[i]? = some c) : ∃ table,
      s.master k = .finished (numbersFor cfg i c) table ∧
        table.map some = (allGateways cfg).map fun p => s.gateways p.1 p.2 := by
  have hline := hinv.line k
  have hlive : s.thread k ≠ .failed := by simp [hthread]
  have hmaster := hkept.master k hlive
  have hwritten := hline.written hlive hmaster
  have hheld := hline.held
  have hsound := hline.sound
  rw [hthread, Thread.told] at hheld
  rw [hthread, Thread.written, numbersAt_eq hc] at hwritten
  have hlength := length_tell hheld
  rw [List.take_length] at hheld hlength
  cases hcase : s.master k with
  | connected => exact absurd hcase (hstuck.master hk).1
  | sending numbers src => exact absurd hcase ((hstuck.master hk).2 numbers src)
  | failed => exact absurd hcase hmaster
  | connecting =>
      have hidle := hline.idle.mpr hcase
      rw [hthread] at hidle
      cases hidle
  | waiting =>
      rw [hcase, hstuck.waiting hk hcase] at hwritten
      cases hwritten
  | receiving numbers table =>
      rw [hcase] at hwritten hsound
      rw [hstuck.receiving hk hcase, Master.received, List.append_nil, List.cons.injEq]
        at hwritten
      rw [hwritten.2, List.length_map] at hlength
      exact absurd hsound.2 (by omega)
  | finished numbers table =>
      rw [hcase] at hwritten hsound
      rw [Master.received, List.cons_append, List.cons.injEq, ToMaster.accepted.injEq]
        at hwritten
      obtain ⟨rfl, hwritten⟩ := hwritten
      have hrest : s.toMaster k = [] := by
        have hlengths := congrArg List.length hwritten
        rw [hlength, List.length_append, List.length_map, hsound.2] at hlengths
        exact List.length_eq_zero_iff.mp (by omega)
      rw [hrest, List.append_nil, tell, List.take_length] at hwritten
      exact ⟨table, rfl, map_some_of_tell hheld hwritten.symm⟩

/-- What the server does at the end of its loop, once its socket is closed. -/
def State.Opened (cfg : Configuration) (s : State) : Prop :=
  s.world = if s.closed then cfg.initCommWorld else none

/-- Only the end of the loop makes a world. -/
theorem State.world_change {e : Event} (hother : e ≠ .start) :
    (s.change cfg text arrivals e).world = s.world ∧
      (s.change cfg text arrivals e).closed = s.closed := by
  cases e with
  | start => exact absurd rfl hother
  | _ =>
      constructor <;>
        · simp only [State.change, State.accept, State.sendHandshake, State.getCluster,
            State.setConnection, State.sendHandshakeReply, State.receiveReply,
            State.sendAddresses, State.receiveGatewayInfo, State.sendGatewayInfo, State.setReady,
            State.receiveGateway]
          repeat' split
          all_goals rfl

theorem State.Opened.change (h : s.Opened cfg) (e : Event) :
    (s.change cfg text arrivals e).Opened cfg := by
  by_cases hstart : e = .start
  · subst hstart
    rw [State.change, State.start]
    split
    · exact h
    · split
      · rfl
      · exact h
  · have hsame : (s.change cfg text arrivals e).world = s.world ∧
        (s.change cfg text arrivals e).closed = s.closed := State.world_change hstart
    rw [State.Opened, hsame.1, hsame.2]
    exact h

/-- **Who has signed up fits.** -/
theorem Inv.fits (h : Inv cfg text arrivals s) (hsocket : s.socket i = some k)
    (hc : cfg.clusters[i]? = some c) (hup : SignedUp cfg text arrivals s) :
    Fits cfg arrivals i k c := by
  obtain ⟨_, site, hsites⟩ := hup
  obtain ⟨_, _, hthread, table, hmaster, _⟩ := hsites i c hc
  obtain rfl : site i = k :=
    Option.some.inj ((h.holding.owner _ i (by rw [hthread]; rfl)).symm.trans hsocket)
  have hsound := (h.line (site i)).sound
  rw [hmaster] at hsound
  obtain ⟨hknows, _⟩ := hsound
  refine ⟨(Configuration.replyFor_accepted_iff hc).mp hknows.accepted, hknows.size, ?_⟩
  intro index hindex
  have hheard := h.holding.heard (site i) i (by rw [hthread]; rfl) index
    (by rw [hthread]; exact hindex)
  obtain ⟨held, hheld⟩ := Option.isSome_iff_exists.mp hheard
  obtain ⟨k, hk, hselected⟩ := h.holding.held i index held hheld
  obtain rfl : k = site i := Option.some.inj (hk.symm.trans hsocket)
  rw [hselected]
  rfl

end SignUp

end EsalsaMpi
