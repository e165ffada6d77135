import EsalsaMpi.Server.World
import EsalsaMpi.Startup.Ranges
import Mathlib.Algebra.Order.BigOperators.Group.List
import Mathlib.Algebra.Order.Group.Nat

/-!
# The world communicator at the start

Once all clusters are connected the server makes the communicator of the world, before it starts
the messaging.  The array of its members has the number of application processes for its length,
which is a sum in an `int`; so the server ends there if the clusters of the configuration have
`2^31` application processes or more (`initCommWorld_eq`).
-/

namespace EsalsaMpi

open Server

namespace Startup.Configuration

variable (cfg : Configuration)

/-- `Server.initCommWorld`, with the `int` that the constructor has summed up.  A negative length
and a member behind the last place are exceptions. -/
def initCommWorld : Option Server.State :=
  let processes := cfg.numberOfApplicationProcesses.toInt
  let members := membersFrom 0 cfg.sizes
  if processes < 0 then none
  else if processes.toNat < members.length then none
  else
    (tablesOf cfg.clusters.length
      (members ++ List.replicate (processes.toNat - members.length) 0)).map fun t =>
        [some (Communicator.fresh 0 t), none, none]

variable {cfg}

theorem fit_sizes : FitFrom 0 cfg.sizes := by
  refine ⟨?_, fun size hsize => ?_⟩
  · have hclusters := cfg.clusters_lt
    rw [sizes, List.length_map]
    omega
  · obtain ⟨c, _, rfl⟩ := List.mem_map.mp hsize
    exact c.size_le

/-- The sum does not get round to a number that is not negative. -/
theorem sum_sizes_lt : cfg.sizes.sum < 2 ^ 32 := by
  have hle := cfg.sizes.sum_le_card_nsmul maxProcessesPerCluster fit_sizes.size_le
  have hclusters : cfg.sizes.length < maxClusters := by
    rw [sizes, List.length_map]
    exact cfg.clusters_lt
  simp only [maxClusters, maxProcessesPerCluster, Nat.nsmul_eq_mul] at hle hclusters
  omega

/-- The cluster of every member is one of the configuration. -/
theorem known_members : ∀ k ∈ clustersOf (membersFrom 0 cfg.sizes), k < cfg.clusters.length := by
  intro k hk
  obtain ⟨pid, hpid, rfl⟩ := List.mem_map.mp hk
  obtain ⟨i, size, hsize, hcluster, _⟩ := (mem_membersFrom fit_sizes).mp hpid
  have hi := (List.getElem?_eq_some_iff.mp hsize).1
  rw [sizes, List.length_map] at hi
  omega

/-- **The world at the start** has all application processes, if their number is an `int`. -/
theorem initCommWorld_eq :
    cfg.initCommWorld =
      if cfg.sizes.sum < 2 ^ 31 then
        some [some (Communicator.fresh 0 (tablesSpec (membersFrom 0 cfg.sizes))), none, none]
      else none := by
  have hsum : cfg.sizes.sum < 2 ^ 32 := sum_sizes_lt
  have hlength := length_membersFrom 0 cfg.sizes
  rw [initCommWorld, numberOfApplicationProcesses_eq]
  by_cases hfew : cfg.sizes.sum < 2 ^ 31
  · have hn := Int32.toInt_ofNat_of_lt hfew
    rw [if_pos hfew, if_neg (by omega), if_neg (by omega), hn, hlength, Int.toNat_natCast,
      Nat.sub_self, List.replicate_zero, List.append_nil, tablesOf_eq, if_pos known_members]
    rfl
  · have hn : (Int32.ofNat cfg.sizes.sum).toInt < 0 := by
      rw [Int32.toInt_ofNat', Int.bmod]
      simp only [Int32.size]
      omega
    rw [if_neg hfew]
    exact if_pos hn

end Startup.Configuration

end EsalsaMpi
