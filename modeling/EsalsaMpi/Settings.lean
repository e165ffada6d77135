import Mathlib.Data.Nat.Bitwise
import Mathlib.Data.Set.Finite.Basic

/-!
# Compile-time settings and process identifiers

The maxima of `settings.h` and its three macros on process identifiers.  A
PID packs the rank of a cluster into the top byte of a 32-bit word and the
MPI rank of a process inside that cluster into the other three, so a PID
names one process of the whole multi-cluster run.

The two projections are read as arithmetic, `pid / 2^24` and `pid % 2^24`,
and `setPid` is shown to be their inverse on the ranges the settings allow.
-/

namespace EsalsaMpi

/-- A process identifier: `uint32_t` on the clients, the bits of an `int` on
the server. -/
abbrev Pid := UInt32

theorem finite_pid : (Set.univ : Set Pid).Finite :=
  @Set.finite_univ _ (Finite.of_injective UInt32.toFin fun _ _ => UInt32.toFin_inj.mp)

/-- All of them. -/
noncomputable def pids : Finset Pid := finite_pid.toFinset

theorem mem_pids (pid : Pid) : pid ∈ pids := finite_pid.mem_toFinset.mpr (Set.mem_univ pid)

/-- `MAX_PROCESSES_PER_CLUSTER`, the maximum number of MPI processes allowed
per cluster. -/
def maxProcessesPerCluster : Nat := 16777216

/-- `MAX_CLUSTERS`, the maximum number of clusters allowed. -/
def maxClusters : Nat := 256

/-- `MAX_COMMUNICATORS`, the number of slots in every process' table of
communicators. -/
def maxCommunicators : Nat := 1024

/-- `GET_CLUSTER_RANK(X)`. -/
def getClusterRank (pid : Pid) : Nat :=
  ((pid &&& 0xFF000000) >>> 24).toNat

/-- `GET_PROCESS_RANK(X)`. -/
def getProcessRank (pid : Pid) : Nat :=
  (pid &&& 0x00FFFFFF).toNat

/-- `SET_PID(X, Y)`. -/
def setPid (clusterRank processRank : Nat) : Pid :=
  ((UInt32.ofNat clusterRank &&& 0xFF) <<< 24) |||
    (UInt32.ofNat processRank &&& 0xFFFFFF)

/-- The cluster rank of a PID is its top byte. -/
theorem getClusterRank_eq (pid : Pid) :
    getClusterRank pid = pid.toNat / 2 ^ 24 := by
  have hlt : pid.toNat / 2 ^ 24 < 2 ^ 8 := by
    have := pid.toNat_lt
    omega
  calc getClusterRank pid
      = (pid.toNat &&& 0xFF000000) >>> 24 := by
        simp [getClusterRank, UInt32.toNat_shiftRight, UInt32.toNat_and]
    _ = (pid.toNat >>> 24) &&& (2 ^ 8 - 1) := by
        rw [Nat.shiftRight_and_distrib]
        rfl
    _ = pid.toNat / 2 ^ 24 := by
        rw [Nat.and_two_pow_sub_one_eq_mod, Nat.shiftRight_eq_div_pow,
          Nat.mod_eq_of_lt hlt]

/-- The process rank of a PID is its low three bytes. -/
theorem getProcessRank_eq (pid : Pid) :
    getProcessRank pid = pid.toNat % 2 ^ 24 := by
  have hmask : getProcessRank pid = pid.toNat &&& (2 ^ 24 - 1) := by
    simp [getProcessRank, UInt32.toNat_and]
  rw [hmask, Nat.and_two_pow_sub_one_eq_mod]

/-- Only 256 cluster ranks fit in a PID. -/
theorem getClusterRank_lt (pid : Pid) : getClusterRank pid < maxClusters := by
  have := pid.toNat_lt
  rw [getClusterRank_eq, maxClusters]
  omega

/-- A PID is determined by its two ranks. -/
theorem pid_ext {p q : Pid} (hcluster : getClusterRank p = getClusterRank q)
    (hprocess : getProcessRank p = getProcessRank q) : p = q := by
  rw [getClusterRank_eq, getClusterRank_eq] at hcluster
  rw [getProcessRank_eq, getProcessRank_eq] at hprocess
  apply UInt32.toNat_inj.mp
  omega

/-- `SET_PID` as arithmetic, on ranks inside the documented maxima. -/
theorem setPid_toNat {c r : Nat} (hc : c < maxClusters)
    (hr : r < maxProcessesPerCluster) :
    (setPid c r).toNat = c * 2 ^ 24 + r := by
  unfold maxClusters at hc
  unfold maxProcessesPerCluster at hr
  have hcluster : c &&& (2 ^ 8 - 1) = c := by
    rw [Nat.and_two_pow_sub_one_eq_mod]
    omega
  have hprocess : r &&& (2 ^ 24 - 1) = r := by
    rw [Nat.and_two_pow_sub_one_eq_mod]
    omega
  have hshift : c <<< 24 % 2 ^ 32 = 2 ^ 24 * c := by
    rw [Nat.shiftLeft_eq]
    omega
  calc (setPid c r).toNat
      = (((c % 2 ^ 32) &&& (2 ^ 8 - 1)) <<< 24 % 2 ^ 32) |||
          ((r % 2 ^ 32) &&& (2 ^ 24 - 1)) := by
        simp [setPid, UInt32.toNat_or, UInt32.toNat_shiftLeft, UInt32.toNat_and]
    _ = 2 ^ 24 * c ||| r := by
        rw [Nat.mod_eq_of_lt (by omega : c < 2 ^ 32),
          Nat.mod_eq_of_lt (by omega : r < 2 ^ 32), hcluster, hprocess, hshift]
    _ = 2 ^ 24 * c + r := (Nat.two_pow_add_eq_or_of_lt (by omega) c).symm
    _ = c * 2 ^ 24 + r := by omega

@[simp] theorem getClusterRank_setPid {c r : Nat} (hc : c < maxClusters)
    (hr : r < maxProcessesPerCluster) : getClusterRank (setPid c r) = c := by
  rw [getClusterRank_eq, setPid_toNat hc hr]
  unfold maxProcessesPerCluster at hr
  omega

@[simp] theorem getProcessRank_setPid {c r : Nat} (hc : c < maxClusters)
    (hr : r < maxProcessesPerCluster) : getProcessRank (setPid c r) = r := by
  rw [getProcessRank_eq, setPid_toNat hc hr]
  unfold maxProcessesPerCluster at hr
  omega

end EsalsaMpi
