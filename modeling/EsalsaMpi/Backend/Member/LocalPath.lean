import EsalsaMpi.Backend.Member.View
import EsalsaMpi.Backend.Allgatherv.Result

/-!
# The path for local communicators

When all members of a communicator are in one cluster, the calls go to the library of this
cluster at once, with the rank of the destination or of the root as it is.  The general path
translates it with `get_local_rank`.  `comm_is_local` decides by the flags, which the server
has computed; the ranks that the general path would yield are from the tables of the server
too; and what process has a rank in the library's communicator is a matter of the split,
create or dup that the members have performed there.

In every run the three agree: a communicator is local just when its members are in one
cluster, and then the ranks in the library are those in the communicator
(`fastPath_of_reachable`).
-/

namespace EsalsaMpi

open ProcessNetwork

/-- `EMPI_Ssend`, with `PMPI_Ssend` as a send. -/
def Empi.ssend {α : Type} (pk : Packing α) (p : Process) (c : Communicator) (buf : List α)
    (dest : Nat) (tag : Int) : Caller α Unit :=
  if c.commIsLocal then
    pmpiSend c buf dest tag
  else if rankIsLocal p c dest then
    .ofOption (c.getLocalRank dest) >>= fun rank => pmpiSend c buf rank tag
  else
    sendMessage pk p c buf dest tag

/-- The process with a rank in the communicator of the library. -/
def Communicator.addressed (c : Communicator) (rank : Nat) : Option Pid := c.comm[rank]?

/-- **The fast path of communicator `n`** at the process `p`: it is taken for local
communicators, and there the rank in the library of every member is its rank in the
communicator; a rank that is passed to the library as it is addresses the same process as
the translated one, whatever the call is; and `EMPI_Ssend` does what it does without the
fast path. -/
structure FastPath (s : System) (n : Nat) (members : List Pid) (p : Process)
    (c : Communicator) : Prop where
  taken : c.commIsLocal = true ↔ OneCluster members
  ranks : c.commIsLocal = true → ∀ (rank : Nat) q, members[rank]? = some q →
    ∀ p' c', s.processes q = some p' → p'.comms n = some c' →
      c'.comm = c.comm ∧ c'.globalRank = rank ∧ c'.comm.idxOf q = rank ∧ c'.localRank = rank
  address : c.commIsLocal = true → ∀ rank < members.length,
    c.addressed rank = members[rank]? ∧
      (c.getLocalRank rank).bind c.addressed = c.addressed rank
  calls : c.commIsLocal = true → ∀ rank < members.length, ∀ {α β : Type}
    (call : Nat → Caller α β), (Proc.ofOption (c.getLocalRank rank) >>= call) = call rank
  ssend : c.commIsLocal = true → ∀ dest < members.length, ∀ {α : Type} (pk : Packing α)
    (buf : List α) (tag : Int),
      Empi.ssend pk p c buf dest tag = Empi.doSend pk p c buf dest tag

variable {pid : Pid} {n : Nat} {members : List Pid} {c : Communicator}

/-- The library's communicator of a local communicator has all members. -/
theorem Mirrors.comm_of_oneCluster (h : Mirrors pid n members c) (hone : OneCluster members) :
    c.comm = members := by
  rw [h.comm, clusterMembers, List.filter_eq_self]
  intro q hq
  exact decide_eq_true (hone.2 q hq pid (List.mem_of_getElem? h.globalRank))

/-- The local ranks of its members are their ranks. -/
theorem Mirrors.getLocalRank_of_oneCluster (h : Mirrors pid n members c)
    (hnodup : members.Nodup) (hone : OneCluster members) {rank : Nat}
    (hrank : rank < members.length) : c.getLocalRank rank = some rank := by
  have hall : clusterMembers members[rank] members = members := by
    rw [clusterMembers, List.filter_eq_self]
    exact fun q hq => decide_eq_true (hone.2 q hq _ (List.getElem_mem hrank))
  rw [c.getLocalRank_of_lt (by rw [h.globalSize]; exact hrank), h.tables,
    localRanks_eq_idxOf hnodup (List.getElem?_eq_getElem hrank), hall,
    hnodup.idxOf_getElem _ hrank]

/-- **The local fast path.**  In every state of a run and for every communicator that a
process has, the fast path is taken just when all members are in one cluster, and then it
agrees with the general path. -/
theorem fastPath_of_reachable {cfg : Server.Config} {order : Server.HashOrder} {s : System}
    (hreach : System.Reachable cfg order s) {sc : Server.Communicator} {p : Process}
    (hsc : s.server[n]? = some (some sc)) (hp : s.processes pid = some p)
    (hc : p.comms n = some c) : FastPath s n sc.tables.members p c := by
  have hinv := System.inv_of_reachable hreach
  have hmirrors : ∀ q p' c', s.processes q = some p' → p'.comms n = some c' →
      Mirrors q n sc.tables.members c' := by
    intro q p' c' hp' hc'
    have hnot : ∀ i, s.server[i]? = some none → n ≠ i := by
      rintro i hi rfl
      rw [hsc] at hi
      cases hi
    obtain ⟨sc', hsc', hmem⟩ := hinv.known q p' hp' n c' hc' (hnot 1 hinv.reserved.1)
      (hnot 2 hinv.reserved.2)
    rw [hsc] at hsc'
    cases hsc'
    obtain ⟨c'', hc'', hmirrors⟩ := hinv.mirror q p' hp' n sc hsc hmem
    rw [hc'] at hc''
    cases hc''
    exact hmirrors
  have hown := hmirrors pid p c hp hc
  have hnodup : sc.tables.members.Nodup := by
    obtain ⟨members, hvalid, hsc'⟩ := hinv.communicator n sc hsc
    rw [hsc']
    exact hvalid.nodup
  have htaken : c.commIsLocal = true ↔ OneCluster sc.tables.members := by
    rw [System.commIsLocal_iff hreach hp hc, hown.tables]
    rfl
  have hlocalRank : c.commIsLocal = true → ∀ rank < sc.tables.members.length,
      c.getLocalRank rank = some rank := fun hlocal rank hrank =>
    hown.getLocalRank_of_oneCluster hnodup (htaken.mp hlocal) hrank
  have hcalls : c.commIsLocal = true → ∀ rank < sc.tables.members.length, ∀ {α β : Type}
      (call : Nat → Caller α β), (Proc.ofOption (c.getLocalRank rank) >>= call) = call rank := by
    intro hlocal rank hrank α β call
    rw [hlocalRank hlocal rank hrank]
    rfl
  refine ⟨htaken, ?_, ?_, hcalls, ?_⟩
  · intro hlocal rank q hq p' c' hp' hc'
    have hmirrors' := hmirrors q p' c' hp' hc'
    have hone := htaken.mp hlocal
    have hcomm' := hmirrors'.comm_of_oneCluster hone
    obtain ⟨hlt, hget⟩ := List.getElem?_eq_some_iff.mp hq
    have hplace : c'.comm.idxOf q = rank := by
      rw [hcomm', ← hget]
      exact hnodup.idxOf_getElem _ hlt
    refine ⟨hcomm'.trans (hown.comm_of_oneCluster hone).symm, ?_, hplace, ?_⟩
    · have hlt' := (List.getElem?_eq_some_iff.mp hmirrors'.globalRank).1
      exact (List.getElem?_inj hlt' hnodup).mp (hmirrors'.globalRank.trans hq.symm)
    · rw [hmirrors'.localRank]
      exact hplace
  · intro hlocal rank hrank
    have hcomm := hown.comm_of_oneCluster (htaken.mp hlocal)
    refine ⟨by rw [Communicator.addressed, hcomm], ?_⟩
    rw [hlocalRank hlocal rank hrank]
    rfl
  · intro hlocal dest hdest α pk buf tag
    have hone := htaken.mp hlocal
    have hdestLocal : rankIsLocal p c dest = true := by
      have hpid := (hinv.process pid p hp).1
      have hmem := List.getElem_mem hdest
      rw [rankIsLocal, Communicator.getClusterRank, Communicator.getPid, hown.tables]
      show (sc.tables.members[dest]?.map getClusterRank == some p.clusterRank) = true
      rw [List.getElem?_eq_getElem hdest, Process.clusterRank, hpid]
      exact beq_iff_eq.mpr (congrArg some
        (hone.2 _ hmem pid (List.mem_of_getElem? hown.globalRank)))
    rw [Empi.ssend, if_pos hlocal, Empi.doSend, if_pos hdestLocal, hcalls hlocal dest hdest]

namespace System

/-- A split of the world by clusters, with the processes of each in reverse order. -/
def reverse : Collective :=
  .split (fun pid => getClusterRank pid) fun pid => -(getProcessRank pid : Int)

/-- The world of `Config.triple` after it. -/
def reversed : System :=
  (start .triple tripleServer).after .triple .insertion 0 reverse (Server.worldMembers .triple)
    (reverse.row 0 (Server.worldMembers .triple))

theorem reachable_reversed : Reachable .triple .insertion reversed := by
  refine ⟨tripleServer, Server.initCommWorld_eq .triple, Relation.ReflTransGen.single ?_⟩
  have hsent : (start .triple tripleServer).requests 0 reverse (Server.worldMembers .triple) =
      some (reverse.row 0 (Server.worldMembers .triple)) := by
    decide
  exact @Step.collective .triple .insertion (start .triple tripleServer) 0 reverse _ _ _ rfl
    trivial hsent (List.Perm.refl _)

/-- Communicator 3 is local, with the ranks of the two processes exchanged. -/
theorem fastPath_reversed :
    ∃ p c, reversed.processes (setPid 0 0) = some p ∧ p.comms 3 = some c ∧
      c.commIsLocal = true ∧ c.globalRank = 1 ∧
        FastPath reversed 3 [setPid 0 1, setPid 0 0] p c := by
  have hlive : reversed.server[3]? = some (some (Server.Communicator.fresh 3
      (Server.tablesSpec [setPid 0 1, setPid 0 0]))) := by
    decide
  have hsome : (reversed.processes (setPid 0 0)).isSome = true := by decide
  obtain ⟨p, hp⟩ := Option.isSome_iff_exists.mp hsome
  obtain ⟨c, hc, hagrees⟩ := agrees_of_member reachable_reversed hp hlive (by decide)
  have hpath := fastPath_of_reachable reachable_reversed hlive hp hc
  refine ⟨p, c, hp, hc, hpath.taken.mpr ⟨by decide, ?_⟩, ?_, hpath⟩
  · have hall : ∀ q ∈ [setPid 0 1, setPid 0 0], getClusterRank q = 0 :=
      List.forall_mem_cons.mpr ⟨by decide, List.forall_mem_singleton.mpr (by decide)⟩
    exact fun q hq q' hq' => (hall q hq).trans (hall q' hq').symm
  · rw [hagrees.globalRank]
    decide

end System

end EsalsaMpi
