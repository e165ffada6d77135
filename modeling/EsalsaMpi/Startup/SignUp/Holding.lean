import EsalsaMpi.Startup.SignUp.Lines

/-!
# What the server holds

Each cluster is connected with one master gateway of its name, for ever; what the server holds of
the gateways of the cluster is what this master gateway has sent; and a cluster is ready when its
thread has finished (`Holding`).
-/

namespace EsalsaMpi

namespace SignUp

open Networks Startup CommandLine

variable {cfg : Configuration} {text : List UInt8 → String} {arrivals : Arrivals}
  {s s' : State} {i j k : Nat} {c : Cluster}

/-- The cluster that a thread has found. -/
def Thread.cluster : Thread → Option Nat
  | .found i | .connected i | .receiving i _ | .sending i _ | .finished i => some i
  | _ => none

/-- The cluster that a thread has connected. -/
def Thread.owner : Thread → Option Nat
  | .connected i | .receiving i _ | .sending i _ | .finished i => some i
  | _ => none

/-- The number of gateways that a thread has heard of. -/
def Thread.heard (cfg : Configuration) : Thread → Nat
  | .receiving _ index => index
  | .sending _ _ | .finished _ => cfg.numberOfGatewaysPerCluster
  | _ => 0

/-- **What the server holds**, and who has told it. -/
structure Holding (cfg : Configuration) (text : List UInt8 → String) (arrivals : Arrivals)
    (s : State) : Prop where
  cluster : ∀ k i, (s.thread k).cluster = some i → arrivals.found cfg text k = some i
  owner : ∀ k i, (s.thread k).owner = some i → s.socket i = some k
  socket : ∀ i k, s.socket i = some k → k < arrivals.number ∧
    arrivals.found cfg text k = some i ∧ ((s.thread k).owner = some i ∨ s.thread k = .failed)
  failed : ∀ k i, s.thread k = .failed → arrivals.found cfg text k = some i →
    (s.socket i).isSome
  held : ∀ i j h, s.gateways i j = some h →
    ∃ k, s.socket i = some k ∧ arrivals.held cfg i k j = some h
  heard : ∀ k i, (s.thread k).owner = some i → ∀ j < (s.thread k).heard cfg,
    (s.gateways i j).isSome
  index : ∀ k i j, s.thread k = .receiving i j → j < cfg.numberOfGatewaysPerCluster
  ready : ∀ i, s.ready i → ∃ k, s.thread k = .finished i
  closed : s.closed → ∀ i < cfg.clusters.length, s.ready i

theorem Thread.cluster_of_owner {t : Thread} (h : t.owner = some i) : t.cluster = some i := by
  cases t <;> simp_all [Thread.owner, Thread.cluster]

/-- The server finds one of its clusters. -/
theorem found_lt (h : arrivals.found cfg text k = some i) : i < cfg.clusters.length := by
  rw [Arrivals.found] at h
  split at h
  · exact (List.findIdx?_eq_some_iff_getElem.mp h).1
  · cases h

/-- **A thread goes on.** -/
theorem Holding.move (h : Holding cfg text arrivals s) {t : Thread}
    (hcluster : ∀ i, t.cluster = some i → arrivals.found cfg text k = some i)
    (howner : ∀ i, t.owner = some i → s.socket i = some k)
    (hkeeps : ∀ i, (s.thread k).owner = some i → t.owner = some i ∨ t = .failed)
    (hback : s.thread k = .failed → t = .failed)
    (hfailed : t = .failed → ∀ i, arrivals.found cfg text k = some i → (s.socket i).isSome)
    (hheard : ∀ i, t.owner = some i → ∀ j < t.heard cfg, (s.gateways i j).isSome)
    (hindex : ∀ i j, t = .receiving i j → j < cfg.numberOfGatewaysPerCluster)
    (hready : ∀ i, s.thread k = .finished i → t = .finished i)
    (hthread : s'.thread = Function.update s.thread k t) (hsocket : s'.socket = s.socket)
    (hgateways : s'.gateways = s.gateways) (hsame : s'.ready = s.ready)
    (hclosed : s'.closed = s.closed) : Holding cfg text arrivals s' := by
  have hself : s'.thread k = t := by rw [hthread, Function.update_self]
  have hother : ∀ j ≠ k, s'.thread j = s.thread j := fun j hj => by
    rw [hthread, Function.update_of_ne hj]
  constructor
  · intro j i hi
    by_cases hj : j = k
    · subst hj
      rw [hself] at hi
      exact hcluster i hi
    · rw [hother j hj] at hi
      exact h.cluster j i hi
  · intro j i hi
    rw [hsocket]
    by_cases hj : j = k
    · subst hj
      rw [hself] at hi
      exact howner i hi
    · rw [hother j hj] at hi
      exact h.owner j i hi
  · intro i j hi
    rw [hsocket] at hi
    obtain ⟨hlt, hfound, howns⟩ := h.socket i j hi
    refine ⟨hlt, hfound, ?_⟩
    by_cases hj : j = k
    · subst hj
      rw [hself]
      rcases howns with howns | hlost
      · exact hkeeps i howns
      · exact Or.inr (hback hlost)
    · rwa [hother j hj]
  · intro j i hlost hfound
    rw [hsocket]
    by_cases hj : j = k
    · subst hj
      rw [hself] at hlost
      exact hfailed hlost i hfound
    · rw [hother j hj] at hlost
      exact h.failed j i hlost hfound
  · intro i j held hheld
    rw [hsocket]
    rw [hgateways] at hheld
    exact h.held i j held hheld
  · intro j i hi
    rw [hgateways]
    by_cases hj : j = k
    · subst hj
      rw [hself] at hi ⊢
      exact hheard i hi
    · rw [hother j hj] at hi ⊢
      exact h.heard j i hi
  · intro l i j hl
    by_cases hlk : l = k
    · subst hlk
      rw [hself] at hl
      exact hindex i j hl
    · rw [hother l hlk] at hl
      exact h.index l i j hl
  · intro i hi
    rw [hsame] at hi
    obtain ⟨j, hj⟩ := h.ready i hi
    refine ⟨j, ?_⟩
    by_cases hjk : j = k
    · subst hjk
      rw [hself]
      exact hready i hj
    · rwa [hother j hjk]
  · rw [hclosed, hsame]
    exact h.closed

/-- A thread fails that has no cluster, or after it has connected it. -/
theorem Holding.fail (h : Holding cfg text arrivals s)
    (hfailed : ∀ i, arrivals.found cfg text k = some i → (s.socket i).isSome)
    (hready : ∀ i, s.thread k ≠ .finished i)
    (hthread : s'.thread = Function.update s.thread k .failed) (hsocket : s'.socket = s.socket)
    (hgateways : s'.gateways = s.gateways) (hsame : s'.ready = s.ready)
    (hclosed : s'.closed = s.closed) : Holding cfg text arrivals s' := by
  refine h.move ?_ ?_ (fun _ _ => Or.inr rfl) (fun _ => rfl) (fun _ => hfailed) ?_ ?_ ?_ hthread
    hsocket hgateways hsame hclosed
  · intro i hi
    cases hi
  · intro i hi
    cases hi
  · intro i hi
    cases hi
  · intro i j hi
    cases hi
  · exact fun i hi => absurd hi (hready i)

/-- **A cluster is connected.** -/
theorem Holding.connect (h : Holding cfg text arrivals s) (hk : k < arrivals.number)
    (hthread : s.thread k = .found i) (hfree : s.socket i = none) :
    Holding cfg text arrivals { s with
      thread := Function.update s.thread k (.connected i)
      socket := Function.update s.socket i (some k) } := by
  have hfound : arrivals.found cfg text k = some i := h.cluster k i (by rw [hthread]; rfl)
  have hsocket : ∀ {a b}, s.socket a = some b →
      Function.update s.socket i (some k) a = some b := by
    intro a b hab
    rw [Function.update_of_ne]
    · exact hab
    · rintro rfl
      rw [hfree] at hab
      cases hab
  have hother : ∀ {l}, l ≠ k → Function.update s.thread k (.connected i) l = s.thread l :=
    fun hl => Function.update_of_ne hl _ _
  refine ⟨fun l a ha => ?_, fun l a ha => ?_, fun a l ha => ?_, fun l a hlost hl => ?_,
    fun a j held hheld => ?_, fun l a ha => ?_, fun l a j hl => ?_, fun a ha => ?_, h.closed⟩
  · by_cases hl : l = k
    · subst hl
      simp only [Function.update_self, Thread.cluster, Option.some.injEq] at ha
      rwa [← ha]
    · simp only [hother hl] at ha
      exact h.cluster l a ha
  · by_cases hl : l = k
    · subst hl
      simp only [Function.update_self, Thread.owner, Option.some.injEq] at ha
      simp only [← ha, Function.update_self]
    · simp only [hother hl] at ha
      exact hsocket (h.owner l a ha)
  · by_cases hai : a = i
    · subst hai
      simp only [Function.update_self, Option.some.injEq] at ha
      subst ha
      refine ⟨hk, hfound, Or.inl ?_⟩
      simp only [Function.update_self]
      rfl
    · simp only [Function.update_of_ne hai] at ha
      obtain ⟨hlt, hl, howns⟩ := h.socket a l ha
      refine ⟨hlt, hl, ?_⟩
      by_cases hlk : l = k
      · subst hlk
        rcases howns with howns | hlost
        · rw [hthread] at howns
          cases howns
        · rw [hthread] at hlost
          cases hlost
      · simpa only [hother hlk] using howns
  · by_cases hlk : l = k
    · subst hlk
      simp only [Function.update_self] at hlost
      cases hlost
    · simp only [hother hlk] at hlost
      obtain ⟨b, hb⟩ := Option.isSome_iff_exists.mp (h.failed l a hlost hl)
      simp only [hsocket hb, Option.isSome_some]
  · obtain ⟨b, hb, hselected⟩ := h.held a j held hheld
    exact ⟨b, hsocket hb, hselected⟩
  · by_cases hlk : l = k
    · subst hlk
      intro j hj
      simp only [Function.update_self, Thread.heard] at hj
      exact absurd hj (Nat.not_lt_zero j)
    · simp only [hother hlk] at ha ⊢
      exact h.heard l a ha
  · by_cases hlk : l = k
    · subst hlk
      simp only [Function.update_self] at hl
      cases hl
    · simp only [hother hlk] at hl
      exact h.index l a j hl
  · obtain ⟨l, hl⟩ := h.ready a ha
    refine ⟨l, ?_⟩
    have hlk : l ≠ k := by
      rintro rfl
      rw [hthread] at hl
      cases hl
    simpa only [hother hlk] using hl

/-- The server is told of a gateway. -/
theorem Holding.hear (h : Holding cfg text arrivals s) {held : HeldInfo}
    (hsocket : s.socket i = some k) (hselected : arrivals.held cfg i k j = some held) :
    Holding cfg text arrivals { s with
        gateways := Function.update s.gateways i
          (Function.update (s.gateways i) j (some held)) } ∧
      Extends s.gateways (Function.update s.gateways i
        (Function.update (s.gateways i) j (some held))) := by
  have hmore : Extends s.gateways (Function.update s.gateways i
      (Function.update (s.gateways i) j (some held))) := by
    intro a b old hold
    by_cases ha : a = i
    · subst ha
      rw [Function.update_self]
      by_cases hb : b = j
      · subst hb
        -- what it held before is the same
        obtain ⟨l, hl, hsame⟩ := h.held a b old hold
        obtain rfl : l = k := Option.some.inj (hl.symm.trans hsocket)
        rw [Function.update_self, ← hselected, hsame]
      · rwa [Function.update_of_ne hb]
    · rwa [Function.update_of_ne ha]
  refine ⟨{ h with held := fun a b new hnew => ?_, heard := fun l a ha b hb => ?_ }, hmore⟩
  · by_cases hab : a = i ∧ b = j
    · obtain ⟨rfl, rfl⟩ := hab
      simp only [Function.update_self, Option.some.injEq] at hnew
      subst hnew
      exact ⟨k, hsocket, hselected⟩
    · refine h.held a b new ?_
      by_cases ha : a = i
      · subst ha
        have hb : b ≠ j := fun hb => hab ⟨rfl, hb⟩
        simpa only [Function.update_self, Function.update_of_ne hb] using hnew
      · simpa only [Function.update_of_ne ha] using hnew
  · obtain ⟨old, hold⟩ := Option.isSome_iff_exists.mp (h.heard l a ha b hb)
    simp only [hmore a b old hold, Option.isSome_some]

end SignUp

end EsalsaMpi
