import EsalsaMpi.Backend.Member.Manners

/-!
# Messages to and from the coordinators

Where a process has something for the other clusters it sends a message to the
coordinator of each (`fanOut`), and where it needs something from them it
receives one from each coordinator (`fanIn`).
-/

namespace EsalsaMpi

open ProcessNetwork FirstOccurrence

/-- The clusters of the members, in the order of their first members. -/
def clustersIn (members : List Pid) : List Nat := (clustersOf members).eraseDups

section Clusters

variable {members : List Pid} {r i k : Nat}

theorem nodup_clustersIn (members : List Pid) : (clustersIn members).Nodup :=
  nodup_eraseDups _

theorem clusterAt_mem_clustersIn (hr : r < members.length) :
    clusterAt members r ∈ clustersIn members := by
  apply List.mem_eraseDups.mpr
  have hlt : r < (clustersOf members).length := by
    rw [clustersOf, List.length_map]
    exact hr
  rw [clusterAt, List.getD_eq_getElem _ _ hlt]
  exact List.getElem_mem hlt

/-- **The coordinator of a cluster** is one of its members. -/
theorem coordinatorOf_spec (hk : k ∈ clustersIn members) :
    coordinatorOf members k < members.length ∧
      clusterAt members (coordinatorOf members k) = k := by
  have hlt := List.idxOf_lt_length_of_mem (List.mem_eraseDups.mp hk)
  refine ⟨?_, ?_⟩
  · have hlength : (clustersOf members).length = members.length := List.length_map _
    exact hlength ▸ hlt
  · rw [clusterAt, coordinatorOf, List.getD_eq_getElem _ _ hlt, List.getElem_idxOf hlt]

theorem coordinatorFor_mem (hr : r < members.length) :
    coordinatorFor members r ∈ localsOf members r :=
  mem_localsOf.mpr (coordinatorOf_spec (clusterAt_mem_clustersIn hr))

/-- A rank coordinates one cluster at most, its own. -/
theorem coordinatorOf_eq_iff (hk : k ∈ clustersIn members) :
    coordinatorOf members k = r ↔ k = clusterAt members r ∧ coordinatorFor members r = r := by
  constructor
  · rintro rfl
    have hcluster := (coordinatorOf_spec hk).2
    exact ⟨hcluster.symm, by rw [coordinatorFor, hcluster]⟩
  · rintro ⟨rfl, hr⟩
    exact hr

/-- The root in the cluster of each rank, when `root` is the root of all: the root
itself, or the coordinator. -/
def rootFor (members : List Pid) (root r : Nat) : Nat :=
  if clusterAt members r = clusterAt members root then root else coordinatorFor members r

theorem localRoot_rootFor {root : Nat} (hroot : root < members.length) :
    LocalRoot members (rootFor members root) := by
  intro r hr
  refine ⟨?_, fun i hi => ?_⟩
  · unfold rootFor
    split
    · next hcluster => exact mem_localsOf.mpr ⟨hroot, hcluster.symm⟩
    · exact coordinatorFor_mem hr
  · rw [rootFor, rootFor, coordinatorFor, coordinatorFor, (mem_localsOf.mp hi).2]

theorem localRoot_coordinatorFor : LocalRoot members (coordinatorFor members) := by
  intro r hr
  refine ⟨coordinatorFor_mem hr, fun i hi => ?_⟩
  rw [coordinatorFor, coordinatorFor, (mem_localsOf.mp hi).2]

end Clusters

section Blocks

variable {α β : Type} (pk : Packing α) (members : List Pid) (n : Nat) (opcode : Nat) (tag : Int)

/-- A message from the root to the coordinator of each other cluster. -/
def fanOut (buf : List α) (root : Nat) : List (Lane × Packet β) :=
  (clustersIn members).flatMap fun k =>
    if k ≠ clusterAt members root then
      [(⟨.wideArea tag, root, coordinatorOf members k⟩, .wideArea
        (wideMessage pk members n opcode tag buf root (coordinatorOf members k)))]
    else
      []

/-- A message to the root from the coordinator of each other cluster. -/
def fanIn (data : Nat → List α) (root : Nat) : List (Lane × Packet β) :=
  (clustersIn members).flatMap fun k =>
    if k ≠ clusterAt members root then
      [(⟨.wideArea tag, coordinatorOf members k, root⟩, .wideArea (wideMessage pk members n opcode
        tag (data (coordinatorOf members k)) (coordinatorOf members k) root))]
    else
      []

variable {pk members n opcode tag} {buf : List α} {data : Nat → List α} {root r : Nat}

theorem sendsOf_fanOut :
    sendsOf Lane.source r (fanOut (β := β) pk members n opcode tag buf root) =
      if r = root then
        (clustersIn members).flatMap fun k =>
          if k ≠ clusterAt members root then
            [.send ⟨.wideArea tag, root, coordinatorOf members k⟩ (.wideArea
              (wideMessage pk members n opcode tag buf root (coordinatorOf members k)))]
          else
            []
      else
        [] := by
  rw [fanOut, sendsOf_flatMap]
  simp only [sendsOf_ite]
  by_cases hr : r = root
  · rw [if_pos hr]
    simp only [hr, and_true]
  · rw [if_neg hr]
    exact List.flatMap_eq_nil_iff.mpr fun k _ => if_neg fun h => hr h.2.symm

theorem receivesOf_fanOut (hr : r < members.length) :
    receivesOf Lane.dest r (fanOut (β := β) pk members n opcode tag buf root) =
      if clusterAt members r ≠ clusterAt members root ∧ coordinatorFor members r = r then
        [.recv ⟨.wideArea tag, root, r⟩ (.wideArea
          (wideMessage pk members n opcode tag buf root r))]
      else
        [] := by
  rw [fanOut, receivesOf_flatMap]
  simp only [receivesOf_ite]
  rw [flatMap_single (clusterAt members r) (nodup_clustersIn members),
    if_pos (clusterAt_mem_clustersIn hr), ← coordinatorFor]
  · by_cases hr' : coordinatorFor members r = r <;> simp [hr']
  · intro k hk hne
    exact if_neg fun h => hne ((coordinatorOf_eq_iff hk).mp h.2).1

theorem sendsOf_fanIn (hr : r < members.length) :
    sendsOf Lane.source r (fanIn (β := β) pk members n opcode tag data root) =
      if clusterAt members r ≠ clusterAt members root ∧ coordinatorFor members r = r then
        [.send ⟨.wideArea tag, r, root⟩ (.wideArea
          (wideMessage pk members n opcode tag (data r) r root))]
      else
        [] := by
  rw [fanIn, sendsOf_flatMap]
  simp only [sendsOf_ite]
  rw [flatMap_single (clusterAt members r) (nodup_clustersIn members),
    if_pos (clusterAt_mem_clustersIn hr), ← coordinatorFor]
  · by_cases hr' : coordinatorFor members r = r <;> simp [hr']
  · intro k hk hne
    exact if_neg fun h => hne ((coordinatorOf_eq_iff hk).mp h.2).1

theorem receivesOf_fanIn :
    receivesOf Lane.dest r (fanIn (β := β) pk members n opcode tag data root) =
      if r = root then
        (clustersIn members).flatMap fun k =>
          if k ≠ clusterAt members root then
            [.recv ⟨.wideArea tag, coordinatorOf members k, root⟩ (.wideArea
              (wideMessage pk members n opcode tag (data (coordinatorOf members k))
                (coordinatorOf members k) root))]
          else
            []
      else
        [] := by
  rw [fanIn, receivesOf_flatMap]
  simp only [receivesOf_ite]
  by_cases hr : r = root
  · rw [if_pos hr]
    simp only [hr, and_true]
  · rw [if_neg hr]
    exact List.flatMap_eq_nil_iff.mpr fun k _ => if_neg fun h => hr h.2.symm

end Blocks

/-! ### All messages are between members -/

/-- The messages are from a member to another. -/
def Inside {α : Type} (members : List Pid) (b : List (Lane × Packet α)) : Prop :=
  ∀ t ∈ b, t.1.source < members.length ∧ t.1.dest < members.length

section Inside

variable {α β : Type} {pk : Packing α} {members : List Pid} {n opcode root : Nat} {tag : Int}

theorem inside_libraryBlock (carrier : Carrier) (feeds : Nat → Nat → Prop) [DecidableRel feeds]
    (data : Nat → List α) : Inside members (libraryBlock members carrier feeds data) := by
  intro t ht
  obtain ⟨r, hr, ht⟩ := List.mem_flatMap.mp ht
  obtain ⟨i, hi, ht⟩ := List.mem_flatMap.mp ht
  split at ht
  · rw [List.mem_singleton.mp ht]
    exact ⟨List.mem_range.mp hr, List.mem_range.mp hi⟩
  · cases ht

theorem inside_fanOut (hroot : root < members.length) (buf : List α) :
    Inside members (fanOut (β := β) pk members n opcode tag buf root) := by
  intro t ht
  obtain ⟨k, hk, ht⟩ := List.mem_flatMap.mp ht
  split at ht
  · rw [List.mem_singleton.mp ht]
    exact ⟨hroot, (coordinatorOf_spec hk).1⟩
  · cases ht

theorem inside_fanIn (hroot : root < members.length) (data : Nat → List α) :
    Inside members (fanIn (β := β) pk members n opcode tag data root) := by
  intro t ht
  obtain ⟨k, hk, ht⟩ := List.mem_flatMap.mp ht
  split at ht
  · rw [List.mem_singleton.mp ht]
    exact ⟨(coordinatorOf_spec hk).1, hroot⟩
  · cases ht

end Inside

end EsalsaMpi
