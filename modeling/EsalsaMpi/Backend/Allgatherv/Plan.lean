import EsalsaMpi.Backend.Allgatherv.Buffers
import EsalsaMpi.Backend.Allgatherv.Program

/-!
# The plan of `EMPI_Allgatherv`

What each member sends and receives, in this order: the blocks to the
coordinator of the cluster, the segments between the coordinators, and the
whole buffer from the coordinators to their clusters.  Each link carries at
most one message (`load`), so what is sent on it is what is received, and the
segments are exchanged one after the other, so nobody waits in a circle
(`sound_plan`).
-/

namespace EsalsaMpi

open ProcessNetwork

namespace Layout

variable {α : Type} (L : Layout) (sendbuf : Nat → List α) (message : Nat → Nat → DataMessage)
  (whole : List α)

/-- The member `r` is the coordinator of its cluster. -/
def IsCoordinator (r : Nat) : Prop := r = L.coordinator (L.cluster r)

instance (r : Nat) : Decidable (L.IsCoordinator r) := inferInstanceAs (Decidable (_ = _))

/-- The gathering of the blocks. -/
def gatherTrace (r : Nat) : List (Action Link (Packet α)) :=
  if L.IsCoordinator r then
    (List.range L.size).flatMap fun i =>
      if L.cluster i = L.cluster r ∧ i ≠ r then
        [.recv ⟨.gather, i, r⟩ (.elements (sendbuf i))]
      else
        []
  else
    [.send ⟨.gather, r, L.coordinator (L.cluster r)⟩ (.elements (sendbuf r))]

/-- The exchange of the segment `i`; `message i j` takes it to the coordinator of
cluster `j`. -/
def segmentTrace (r i : Nat) : List (Action Link (Packet α)) :=
  if i = L.cluster r then
    (List.range L.clusters).flatMap fun j =>
      if j ≠ i then
        [.send ⟨.exchange, r, L.coordinator j⟩ (.wideArea (message i j))]
      else
        []
  else
    [.recv ⟨.exchange, L.coordinator i, r⟩ (.wideArea (message i (L.cluster r)))]

/-- The exchange of all segments. -/
def exchangeTrace (r : Nat) : List (Action Link (Packet α)) :=
  if L.IsCoordinator r then
    (List.range L.clusters).flatMap (L.segmentTrace message r)
  else
    []

/-- The broadcast in the cluster. -/
def bcastTrace (r : Nat) : List (Action Link (Packet α)) :=
  if L.IsCoordinator r then
    (List.range L.size).flatMap fun i =>
      if L.cluster i = L.cluster r ∧ i ≠ r then
        [.send ⟨.bcast, r, i⟩ (.elements whole)]
      else
        []
  else
    [.recv ⟨.bcast, L.coordinator (L.cluster r), r⟩ (.elements whole)]

/-- All that the member `r` does. -/
def trace (r : Nat) : List (Action Link (Packet α)) :=
  L.gatherTrace sendbuf r ++ (L.exchangeTrace message r ++ L.bcastTrace whole r)

/-- The messages of a link. -/
def load (c : Link) : List (Packet α) :=
  match c.route with
  | .gather =>
    if c.source < L.size ∧ c.dest = L.coordinator (L.cluster c.source) ∧ c.source ≠ c.dest then
      [.elements (sendbuf c.source)]
    else
      []
  | .exchange =>
    if c.source < L.size ∧ c.dest < L.size ∧ L.IsCoordinator c.source ∧ L.IsCoordinator c.dest ∧
        L.cluster c.source ≠ L.cluster c.dest then
      [.wideArea (message (L.cluster c.source) (L.cluster c.dest))]
    else
      []
  | .bcast =>
    if c.dest < L.size ∧ c.source = L.coordinator (L.cluster c.dest) ∧ c.source ≠ c.dest then
      [.elements whole]
    else
      []

/-- The phase of a link: the exchange has one for each segment. -/
def phase (c : Link) : Nat :=
  match c.route with
  | .gather => 0
  | .exchange => 1 + L.cluster c.source
  | .bcast => 1 + L.clusters

variable {L sendbuf message whole} {r i : Nat}

/-- The members of a coordinator's cluster are those it coordinates. -/
theorem cluster_eq_iff (hr : L.IsCoordinator r) (hi : i < L.size) :
    L.cluster i = L.cluster r ↔ r = L.coordinator (L.cluster i) := by
  constructor
  · intro h
    rw [h]
    exact hr
  · intro h
    rw [h, L.cluster_coordinator _ (L.cluster_lt i hi)]

/-- A coordinator coordinates itself. -/
theorem isCoordinator_coordinator {k : Nat} (hk : k < L.clusters) :
    L.IsCoordinator (L.coordinator k) := by
  rw [IsCoordinator, L.cluster_coordinator k hk]

theorem mem_gatherTrace : ∀ a ∈ L.gatherTrace sendbuf r,
    a.channel.route = .gather ∧ a.isSend = !decide (L.IsCoordinator r) := by
  intro a ha
  unfold gatherTrace at ha
  split at ha
  · obtain ⟨i, _, ha⟩ := List.mem_flatMap.mp ha
    split at ha
    · rw [List.mem_singleton.mp ha, decide_eq_true ‹L.IsCoordinator r›]
      exact ⟨rfl, rfl⟩
    · cases ha
  · rw [List.mem_singleton.mp ha, decide_eq_false ‹¬ L.IsCoordinator r›]
    exact ⟨rfl, rfl⟩

theorem mem_bcastTrace : ∀ a ∈ L.bcastTrace whole r,
    a.channel.route = .bcast ∧ a.isSend = decide (L.IsCoordinator r) := by
  intro a ha
  unfold bcastTrace at ha
  split at ha
  · obtain ⟨i, _, ha⟩ := List.mem_flatMap.mp ha
    split at ha
    · rw [List.mem_singleton.mp ha, decide_eq_true ‹L.IsCoordinator r›]
      exact ⟨rfl, rfl⟩
    · cases ha
  · rw [List.mem_singleton.mp ha, decide_eq_false ‹¬ L.IsCoordinator r›]
    exact ⟨rfl, rfl⟩

/-- A segment goes over the links from the coordinator of its cluster. -/
theorem mem_segmentTrace (hr : L.IsCoordinator r) :
    ∀ a ∈ L.segmentTrace (α := α) message r i,
      (a.channel.route = .exchange ∧ a.channel.source = L.coordinator i) ∧
        a.isSend = decide (i = L.cluster r) := by
  intro a ha
  unfold segmentTrace at ha
  split at ha
  · rename_i hi
    obtain ⟨j, _, ha⟩ := List.mem_flatMap.mp ha
    split at ha
    · rw [List.mem_singleton.mp ha, decide_eq_true hi, hi]
      exact ⟨⟨rfl, hr⟩, rfl⟩
    · cases ha
  · rename_i hi
    rw [List.mem_singleton.mp ha, decide_eq_false hi]
    exact ⟨⟨rfl, rfl⟩, rfl⟩

theorem mem_exchangeTrace : ∀ a ∈ L.exchangeTrace (α := α) message r,
    a.channel.route = .exchange ∧ ∃ i < L.clusters, a.channel.source = L.coordinator i := by
  intro a ha
  unfold exchangeTrace at ha
  split at ha
  · obtain ⟨i, hi, ha⟩ := List.mem_flatMap.mp ha
    obtain ⟨⟨hroute, hsource⟩, _⟩ := mem_segmentTrace ‹_› a ha
    exact ⟨hroute, i, List.mem_range.mp hi, hsource⟩
  · cases ha

/-- Of the three parts, only that of the link's route matters. -/
theorem sentOn_trace (c : Link) (r : Nat) :
    sentOn c (L.trace sendbuf message whole r) =
      match c.route with
      | .gather => sentOn c (L.gatherTrace sendbuf r)
      | .exchange => sentOn c (L.exchangeTrace message r)
      | .bcast => sentOn c (L.bcastTrace whole r) := by
  rw [trace, sentOn_append, sentOn_append]
  have hgather : c.route ≠ .gather → sentOn c (L.gatherTrace sendbuf r) = [] := fun h =>
    sentOn_of_notMem fun a ha heq => h (heq ▸ (mem_gatherTrace a ha).1)
  have hexchange : c.route ≠ .exchange → sentOn c (L.exchangeTrace (α := α) message r) = [] :=
    fun h => sentOn_of_notMem fun a ha heq => h (heq ▸ (mem_exchangeTrace a ha).1)
  have hbcast : c.route ≠ .bcast → sentOn c (L.bcastTrace whole r) = [] := fun h =>
    sentOn_of_notMem fun a ha heq => h (heq ▸ (mem_bcastTrace a ha).1)
  cases hroute : c.route <;> simp_all

theorem recvdOn_trace (c : Link) (r : Nat) :
    recvdOn c (L.trace sendbuf message whole r) =
      match c.route with
      | .gather => recvdOn c (L.gatherTrace sendbuf r)
      | .exchange => recvdOn c (L.exchangeTrace message r)
      | .bcast => recvdOn c (L.bcastTrace whole r) := by
  rw [trace, recvdOn_append, recvdOn_append]
  have hgather : c.route ≠ .gather → recvdOn c (L.gatherTrace sendbuf r) = [] := fun h =>
    recvdOn_of_notMem fun a ha heq => h (heq ▸ (mem_gatherTrace a ha).1)
  have hexchange : c.route ≠ .exchange → recvdOn c (L.exchangeTrace (α := α) message r) = [] :=
    fun h => recvdOn_of_notMem fun a ha heq => h (heq ▸ (mem_exchangeTrace a ha).1)
  have hbcast : c.route ≠ .bcast → recvdOn c (L.bcastTrace whole r) = [] := fun h =>
    recvdOn_of_notMem fun a ha heq => h (heq ▸ (mem_bcastTrace a ha).1)
  cases hroute : c.route <;> simp_all

section Loads

variable {s d : Nat}

theorem sentOn_gatherTrace (hr : r < L.size) :
    sentOn ⟨.gather, s, d⟩ (L.gatherTrace sendbuf r) =
      if s = r then L.load sendbuf message whole ⟨.gather, s, d⟩ else [] := by
  unfold gatherTrace
  split
  · rename_i hcoordinator
    have hload : s = r → L.load sendbuf message whole ⟨.gather, s, d⟩ = [] := by
      rintro rfl
      exact if_neg fun h => h.2.2 (hcoordinator.trans h.2.1.symm)
    rw [sentOn_flatMap, List.flatMap_eq_nil_iff.mpr fun i _ => sentOn_ite_recv]
    split
    · exact (hload ‹_›).symm
    · rfl
  · rename_i hcoordinator
    by_cases hs : s = r
    · subst hs
      rw [if_pos rfl, load]
      by_cases hd : d = L.coordinator (L.cluster s)
      · subst hd
        simp [sentOn, Action.sentOn, hr, show s ≠ _ from hcoordinator]
      · simp [sentOn, Action.sentOn, hd, Ne.symm hd]
    · simp [sentOn, Action.sentOn, hs, Ne.symm hs]

theorem recvdOn_gatherTrace :
    recvdOn ⟨.gather, s, d⟩ (L.gatherTrace sendbuf r) =
      if d = r then L.load sendbuf message whole ⟨.gather, s, d⟩ else [] := by
  unfold gatherTrace
  split
  · rename_i hcoordinator
    simp only [recvdOn_flatMap, recvdOn_ite_recv]
    rw [flatMap_range_single s fun i _ hi => if_neg (by simp [hi]), load, ← ite_and, ← ite_and]
    apply if_congr _ rfl rfl
    constructor
    · rintro ⟨hs, ⟨hcluster, hne⟩, hlink⟩
      cases hlink
      exact ⟨rfl, hs, (cluster_eq_iff hcoordinator hs).mp hcluster, hne⟩
    · rintro ⟨rfl, hs, hd, hne⟩
      exact ⟨hs, ⟨(cluster_eq_iff hcoordinator hs).mpr hd, hne⟩, rfl⟩
  · rename_i hcoordinator
    have hload : d = r → L.load sendbuf message whole ⟨.gather, s, d⟩ = [] := by
      rintro rfl
      apply if_neg
      rintro ⟨hs, hd, _⟩
      have hd' : d = L.coordinator (L.cluster s) := hd
      exact hcoordinator (hd' ▸ isCoordinator_coordinator (L.cluster_lt s hs))
    split
    · exact (hload ‹_›).symm
    · rfl

theorem sentOn_exchangeTrace (hr : r < L.size) :
    sentOn ⟨.exchange, s, d⟩ (L.exchangeTrace message r) =
      if s = r then L.load sendbuf message whole ⟨.exchange, s, d⟩ else [] := by
  unfold exchangeTrace
  split
  · rename_i hcoordinator
    have hown : ∀ i, sentOn ⟨.exchange, s, d⟩ (L.segmentTrace (α := α) message r i) =
        if i = L.cluster r ∧ L.cluster d < L.clusters ∧ L.cluster d ≠ i ∧ L.IsCoordinator d ∧
            s = r then
          [.wideArea (message i (L.cluster d))]
        else
          [] := by
      intro i
      unfold segmentTrace
      split
      · rename_i hi
        simp only [sentOn_flatMap, sentOn_ite_send]
        rw [flatMap_range_single (L.cluster d), ← ite_and]
        · apply if_congr _ rfl rfl
          simp [hi, IsCoordinator]
          tauto
        · intro j hj hne
          apply if_neg
          rintro ⟨_, hlink⟩
          cases hlink
          exact hne (L.cluster_coordinator j hj).symm
      · rename_i hi
        rw [if_neg fun h => hi h.1]
        rfl
    simp only [sentOn_flatMap, hown]
    rw [flatMap_range_single (L.cluster r) fun i _ hi => if_neg fun h => hi h.1, load,
      if_pos (L.cluster_lt r hr)]
    by_cases hs : s = r
    · subst hs
      rw [if_pos rfl]
      apply if_congr _ rfl rfl
      constructor
      · rintro ⟨_, hd, hne, hcoord, _⟩
        exact ⟨hr, hcoord ▸ L.coordinator_lt _ hd, hcoordinator, hcoord, hne.symm⟩
      · rintro ⟨_, hd, _, hcoord, hne⟩
        exact ⟨rfl, L.cluster_lt d hd, hne.symm, hcoord, rfl⟩
    · rw [if_neg hs, if_neg fun h => hs h.2.2.2.2]
  · rename_i hcoordinator
    have hload : s = r → L.load sendbuf message whole ⟨.exchange, s, d⟩ = [] := by
      rintro rfl
      exact if_neg fun h => hcoordinator h.2.2.1
    split
    · exact (hload ‹_›).symm
    · rfl

theorem recvdOn_exchangeTrace (hr : r < L.size) :
    recvdOn ⟨.exchange, s, d⟩ (L.exchangeTrace message r) =
      if d = r then L.load sendbuf message whole ⟨.exchange, s, d⟩ else [] := by
  unfold exchangeTrace
  split
  · rename_i hcoordinator
    have hother : ∀ i, recvdOn ⟨.exchange, s, d⟩ (L.segmentTrace (α := α) message r i) =
        if i ≠ L.cluster r ∧ L.coordinator i = s ∧ d = r then
          [.wideArea (message i (L.cluster r))]
        else
          [] := by
      intro i
      unfold segmentTrace
      split
      · rename_i hi
        rw [recvdOn_flatMap, List.flatMap_eq_nil_iff.mpr fun j _ => recvdOn_ite_send,
          if_neg fun h => h.1 hi]
      · rename_i hi
        rw [recvdOn_recv]
        apply if_congr _ rfl rfl
        simp [hi, eq_comm]
    simp only [recvdOn_flatMap, hother]
    rw [flatMap_range_single (L.cluster s), ← ite_and]
    · by_cases hd : d = r
      · subst hd
        rw [if_pos rfl, load]
        apply if_congr _ rfl rfl
        constructor
        · rintro ⟨hs, hne, hcoord, _⟩
          exact ⟨hcoord ▸ L.coordinator_lt _ hs, hr, hcoord.symm, hcoordinator, hne⟩
        · rintro ⟨hs, _, hcoord, _, hne⟩
          exact ⟨L.cluster_lt s hs, hne, hcoord.symm, rfl⟩
      · rw [if_neg hd, if_neg fun h => hd h.2.2.2]
    · intro i hi hne
      apply if_neg
      rintro ⟨_, rfl, _⟩
      exact hne (L.cluster_coordinator i hi).symm
  · rename_i hcoordinator
    have hload : d = r → L.load sendbuf message whole ⟨.exchange, s, d⟩ = [] := by
      rintro rfl
      exact if_neg fun h => hcoordinator h.2.2.2.1
    split
    · exact (hload ‹_›).symm
    · rfl

theorem sentOn_bcastTrace :
    sentOn ⟨.bcast, s, d⟩ (L.bcastTrace whole r) =
      if s = r then L.load sendbuf message whole ⟨.bcast, s, d⟩ else [] := by
  unfold bcastTrace
  split
  · rename_i hcoordinator
    simp only [sentOn_flatMap, sentOn_ite_send]
    rw [flatMap_range_single d fun i _ hi => if_neg (by simp [hi]), load, ← ite_and, ← ite_and]
    apply if_congr _ rfl rfl
    constructor
    · rintro ⟨hd, ⟨hcluster, hne⟩, hlink⟩
      cases hlink
      exact ⟨rfl, hd, (cluster_eq_iff hcoordinator hd).mp hcluster, hne.symm⟩
    · rintro ⟨rfl, hd, hs, hne⟩
      exact ⟨hd, ⟨(cluster_eq_iff hcoordinator hd).mpr hs, Ne.symm hne⟩, rfl⟩
  · rename_i hcoordinator
    have hload : s = r → L.load sendbuf message whole ⟨.bcast, s, d⟩ = [] := by
      rintro rfl
      apply if_neg
      rintro ⟨hd, hs, _⟩
      have hs' : s = L.coordinator (L.cluster d) := hs
      exact hcoordinator (hs' ▸ isCoordinator_coordinator (L.cluster_lt d hd))
    split
    · exact (hload ‹_›).symm
    · rfl

theorem recvdOn_bcastTrace (hr : r < L.size) :
    recvdOn ⟨.bcast, s, d⟩ (L.bcastTrace whole r) =
      if d = r then L.load sendbuf message whole ⟨.bcast, s, d⟩ else [] := by
  unfold bcastTrace
  split
  · rename_i hcoordinator
    have hload : d = r → L.load sendbuf message whole ⟨.bcast, s, d⟩ = [] := by
      rintro rfl
      exact if_neg fun h => h.2.2 (h.2.1.trans hcoordinator.symm)
    rw [recvdOn_flatMap, List.flatMap_eq_nil_iff.mpr fun i _ => recvdOn_ite_send]
    split
    · exact (hload ‹_›).symm
    · rfl
  · rename_i hcoordinator
    by_cases hd : d = r
    · subst hd
      rw [if_pos rfl, load]
      by_cases hs : s = L.coordinator (L.cluster d)
      · subst hs
        simp [recvdOn, Action.recvdOn, hr, show ¬ _ = d from Ne.symm hcoordinator]
      · simp [recvdOn, Action.recvdOn, hs, Ne.symm hs]
    · simp [recvdOn, Action.recvdOn, hd, Ne.symm hd]

/-- A member sends exactly the loads of the links from it. -/
theorem sentOn_eq (hr : r < L.size) (c : Link) :
    sentOn c (L.trace sendbuf message whole r) =
      if c.source = r then L.load sendbuf message whole c else [] := by
  obtain ⟨route, s, d⟩ := c
  rw [sentOn_trace]
  cases route with
  | gather => exact sentOn_gatherTrace hr
  | exchange => exact sentOn_exchangeTrace hr
  | bcast => exact sentOn_bcastTrace

/-- A member receives exactly the loads of the links to it. -/
theorem recvdOn_eq (hr : r < L.size) (c : Link) :
    recvdOn c (L.trace sendbuf message whole r) =
      if c.dest = r then L.load sendbuf message whole c else [] := by
  obtain ⟨route, s, d⟩ := c
  rw [recvdOn_trace]
  cases route with
  | gather => exact recvdOn_gatherTrace
  | exchange => exact recvdOn_exchangeTrace hr
  | bcast => exact recvdOn_bcastTrace hr

/-- Only links between members carry anything. -/
theorem load_eq_nil {c : Link} (h : L.size ≤ c.source ∨ L.size ≤ c.dest) :
    L.load sendbuf message whole c = [] := by
  obtain ⟨route, s, d⟩ := c
  have hcoord : ∀ {i j : Nat}, i < L.size → j = L.coordinator (L.cluster i) → j < L.size := by
    rintro i j hi rfl
    exact L.coordinator_lt _ (L.cluster_lt i hi)
  simp only at h
  cases route with
  | gather =>
      apply if_neg
      rintro ⟨hs, hd, _⟩
      have hlt := hcoord hs hd
      simp only at hs hlt
      omega
  | exchange =>
      apply if_neg
      rintro ⟨hs, hd, _⟩
      simp only at hs hd
      omega
  | bcast =>
      apply if_neg
      rintro ⟨hd, hs, _⟩
      have hlt := hcoord hd hs
      simp only at hd hlt
      omega

end Loads

theorem phase_segmentTrace (hr : L.IsCoordinator r) (hi : i < L.clusters) :
    ∀ a ∈ L.segmentTrace (α := α) message r i,
      L.phase a.channel = 1 + i ∧ a.isSend = decide (i = L.cluster r) := by
  intro a ha
  obtain ⟨⟨hroute, hsource⟩, hkind⟩ := mem_segmentTrace hr a ha
  refine ⟨?_, hkind⟩
  simp only [phase, hroute, hsource, L.cluster_coordinator i hi]

/-- The segments are exchanged in order. -/
theorem pairwise_exchangeTrace :
    (L.exchangeTrace (α := α) message r).Pairwise (InPhase L.phase) := by
  unfold exchangeTrace
  split
  · rename_i hcoordinator
    refine List.pairwise_flatMap.mpr ⟨?_, ?_⟩
    · intro i hi
      exact pairwise_inPhase (phase_segmentTrace hcoordinator (List.mem_range.mp hi))
    · apply List.Pairwise.imp_of_mem _ List.pairwise_lt_range
      intro i j hi hj hij a ha b hb
      have hphase := (phase_segmentTrace hcoordinator (List.mem_range.mp hi) a ha).1
      have hphase' := (phase_segmentTrace hcoordinator (List.mem_range.mp hj) b hb).1
      exact inPhase_of_lt (by omega)
  · exact List.Pairwise.nil

/-- **Each member takes the phases in order.** -/
theorem pairwise_trace : (L.trace sendbuf message whole r).Pairwise (InPhase L.phase) := by
  have hgather : ∀ a ∈ L.gatherTrace sendbuf r, L.phase a.channel = 0 := by
    intro a ha
    rw [phase, (mem_gatherTrace a ha).1]
  have hexchange : ∀ a ∈ L.exchangeTrace (α := α) message r,
      1 ≤ L.phase a.channel ∧ L.phase a.channel < 1 + L.clusters := by
    intro a ha
    obtain ⟨hroute, i, hi, hsource⟩ := mem_exchangeTrace a ha
    simp only [phase, hroute, hsource, L.cluster_coordinator i hi]
    omega
  have hbcast : ∀ a ∈ L.bcastTrace whole r, L.phase a.channel = 1 + L.clusters := by
    intro a ha
    rw [phase, (mem_bcastTrace a ha).1]
  refine List.pairwise_append.mpr ⟨?_, List.pairwise_append.mpr ⟨?_, ?_, ?_⟩, ?_⟩
  · exact pairwise_inPhase fun a ha => ⟨hgather a ha, (mem_gatherTrace a ha).2⟩
  · exact pairwise_exchangeTrace
  · exact pairwise_inPhase fun a ha => ⟨hbcast a ha, (mem_bcastTrace a ha).2⟩
  · intro a ha b hb
    have := hexchange a ha
    have := hbcast b hb
    exact inPhase_of_lt (by omega)
  · intro a ha b hb
    have := hgather a ha
    apply inPhase_of_lt
    rcases List.mem_append.mp hb with hb | hb
    · have := hexchange b hb
      omega
    · have := hbcast b hb
      omega

/-- The plan of the members, who end with `result`. -/
def plan {β : Type} (hsize : 0 < L.size) (sendbuf : Nat → List α)
    (message : Nat → Nat → DataMessage) (whole : List α) (result : Nat → β) :
    Plan (Fin L.size) Link (Packet α) β where
  writer c := if h : c.source < L.size then ⟨c.source, h⟩ else ⟨0, hsize⟩
  reader c := if h : c.dest < L.size then ⟨c.dest, h⟩ else ⟨0, hsize⟩
  phase := L.phase
  trace r := L.trace sendbuf message whole r
  result r := result r

/-- **What is sent is received, and nobody waits in a circle.** -/
theorem sound_plan {β : Type} (hsize : 0 < L.size) {result : Nat → β} :
    (L.plan hsize sendbuf message whole result).Sound := by
  apply @sound_of_load _ _ _ _ _ _ (L.load sendbuf message whole)
  · intro r c
    rw [plan, sentOn_eq r.isLt]
    rcases Nat.lt_or_ge c.source L.size with hlt | hge
    · simp [hlt, Fin.ext_iff]
    · simp [load_eq_nil (Or.inl hge)]
  · intro r c
    rw [plan, recvdOn_eq r.isLt]
    rcases Nat.lt_or_ge c.dest L.size with hlt | hge
    · simp [hlt, Fin.ext_iff]
    · simp [load_eq_nil (Or.inr hge)]
  · intro r
    exact pairwise_trace

end Layout

end EsalsaMpi
