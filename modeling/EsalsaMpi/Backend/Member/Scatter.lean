import EsalsaMpi.Backend.Member.Bcast
import EsalsaMpi.Backend.Member.Datatypes

/-!
# Scatter and gather

In `EMPI_Scatterv` the root sends each member a block of its buffer, and in
`EMPI_Gatherv` it receives a block from each.  The blocks are sent and received with
the datatypes of both sides, which may differ; only the own block of the root is
copied by `memcpy`, as many bytes as the count of the receiving side takes with the
extent of the root's datatype.

So all members get their blocks and nothing else if and only if the own block of the root
has the same places on both sides, which are just what is copied, and the blocks that go
to another cluster fit into messages (`System.rooted_deliver_iff`).
-/

namespace EsalsaMpi

open ProcessNetwork Placement

namespace Empi

variable (packing : List Basic → Packing UInt8) (p : Process) (c : Communicator)

/-- The round for rank `i` of the loop in `WA_Scatterv`. -/
def scatterTo (sendbuf : Int → UInt8) (sendcounts : Nat → Nat) (displs : Nat → Int)
    (sendtype : Datatype) (recvcount : Nat) (recvbuf : Int → UInt8) (i : Nat) :
    Caller UInt8 (Int → UInt8) :=
  if i = c.globalRank then
    .done (copy recvbuf 0 sendbuf (displs i * sendtype.extent) (recvcount * sendtype.extent))
  else do
    sendData packing p c sendbuf (displs i * sendtype.extent) (sendcounts i) sendtype i scattervTag
    .done recvbuf

/-- `WA_Scatterv`: what is in `recvbuf` then. -/
def waScatterv (sendbuf : Int → UInt8) (sendcounts : Nat → Nat) (displs : Nat → Int)
    (sendtype : Datatype) (recvbuf : Int → UInt8) (recvcount : Nat) (recvtype : Datatype)
    (root : Nat) : Caller UInt8 (Int → UInt8) :=
  if c.globalRank = root then
    (List.range c.globalSize).foldlM
      (scatterTo packing p c sendbuf sendcounts displs sendtype recvcount) recvbuf
  else
    recvData packing p c recvbuf 0 recvcount recvtype root scattervTag

/-- `EMPI_Scatterv`, where `pmpi` is the call of the library. -/
def scatterv (pmpi : Caller UInt8 (Int → UInt8)) (sendbuf : Int → UInt8)
    (sendcounts : Nat → Nat) (displs : Nat → Int) (sendtype : Datatype)
    (recvbuf : Int → UInt8) (recvcount : Nat) (recvtype : Datatype) (root : Nat) :
    Caller UInt8 (Int → UInt8) :=
  if c.commIsLocal then pmpi
  else waScatterv packing p c sendbuf sendcounts displs sendtype recvbuf recvcount recvtype root

/-- `WA_Gatherv`: what is in `recvbuf` then. -/
def waGatherv (sendbuf : Int → UInt8) (sendcount : Nat) (sendtype : Datatype)
    (recvbuf : Int → UInt8) (recvcounts : Nat → Nat) (displs : Nat → Int) (recvtype : Datatype)
    (root : Nat) : Caller UInt8 (Int → UInt8) :=
  if c.globalRank = root then
    (List.range c.globalSize).foldlM
      (collectFrom packing p c recvcounts displs recvtype gathervTag sendbuf 0) recvbuf
  else do
    sendData packing p c sendbuf 0 sendcount sendtype root gathervTag
    .done recvbuf

/-- `EMPI_Gatherv`, where `pmpi` is the call of the library. -/
def gatherv (pmpi : Caller UInt8 (Int → UInt8)) (sendbuf : Int → UInt8) (sendcount : Nat)
    (sendtype : Datatype) (recvbuf : Int → UInt8) (recvcounts : Nat → Nat)
    (displs : Nat → Int) (recvtype : Datatype) (root : Nat) : Caller UInt8 (Int → UInt8) :=
  if c.commIsLocal then pmpi
  else waGatherv packing p c sendbuf sendcount sendtype recvbuf recvcounts displs recvtype root

end Empi

/-! ### The calls -/

/-- What the members pass to `EMPI_Scatterv` or `EMPI_Gatherv`, but for the buffers. -/
inductive RootedKind where
  | scatterv (root : Nat) (sendtype : Datatype) (sendcounts : Nat → Nat) (displs : Nat → Int)
    (recvtype : Nat → Datatype) (recvcount : Nat → Nat)
  | gatherv (root : Nat) (sendtype : Nat → Datatype) (sendcount : Nat → Nat)
    (recvtype : Datatype) (recvcounts : Nat → Nat) (displs : Nat → Int)

namespace RootedKind

/-- The root. -/
def root : RootedKind → Nat
  | scatterv root .. => root
  | gatherv root .. => root

/-- The call is as MPI asks: the root is a member, the datatypes of both sides have the
same basic types for each block, and no place is received to twice. -/
def Legal (size : Nat) : RootedKind → Prop
  | scatterv root sendtype sendcounts _ recvtype recvcount =>
    root < size ∧
      (∀ r < size, sendtype.signature (sendcounts r) = (recvtype r).signature (recvcount r)) ∧
        ∀ r < size, ((recvtype r).offsets (recvcount r)).Nodup
  | gatherv root sendtype sendcount recvtype recvcounts displs =>
    root < size ∧
      (∀ r < size, (sendtype r).signature (sendcount r) = recvtype.signature (recvcounts r)) ∧
        Apart size recvcounts displs recvtype

/-- What is to be in the receive buffers: each rank has its block stored there, and
nothing else has changed.  For a scatter, the block is what is at the displacement of the
rank in the send buffer of the root, and for a gather the whole send buffer of the rank,
for its displacement at the root. -/
def expected (size : Nat) (sendbuf recvbuf : Nat → Int → UInt8) :
    RootedKind → Nat → Int → UInt8
  | scatterv root sendtype sendcounts displs recvtype recvcount, r =>
    store (recvbuf r) ((recvtype r).places 0 (recvcount r))
      (load (sendbuf root) (sendtype.places (displs r * sendtype.extent) (sendcounts r)))
  | gatherv root sendtype sendcount recvtype recvcounts displs, r =>
    if r = root then
      gathered size recvcounts displs recvtype
        (fun j => load (sendbuf j) ((sendtype j).places 0 (sendcount j))) (recvbuf r)
    else
      recvbuf r

/-- The own block of the root has the same places on both sides, and they are just what is
copied. -/
def Fits : RootedKind → Prop
  | scatterv root sendtype sendcounts _ recvtype recvcount =>
    Fills sendtype (sendcounts root) (recvtype root) (recvcount root)
      (recvcount root * sendtype.extent)
  | gatherv root sendtype sendcount recvtype recvcounts _ =>
    Fills (sendtype root) (sendcount root) recvtype (recvcounts root)
      (recvcounts root * recvtype.extent)

/-- The blocks that go to another cluster fit into messages. -/
def Sendable (packing : List Basic → Packing UInt8) (members : List Pid) : RootedKind → Prop
  | scatterv root sendtype sendcounts _ _ _ =>
    ∀ d < members.length, clusterAt members d ≠ clusterAt members root →
      sendtype.Sendable packing (sendcounts d)
  | gatherv root sendtype sendcount _ _ _ =>
    ∀ s < members.length, clusterAt members s ≠ clusterAt members root →
      (sendtype s).Sendable packing (sendcount s)

/-- What is in the receive buffers after the call. -/
def result (size : Nat) (sendbuf recvbuf : Nat → Int → UInt8) : RootedKind → Nat → Int → UInt8
  | scatterv root sendtype sendcounts displs recvtype recvcount, r =>
    if r = root then
      copy (recvbuf r) 0 (sendbuf root) (displs root * sendtype.extent)
        (recvcount root * sendtype.extent)
    else
      store (recvbuf r) ((recvtype r).places 0 (recvcount r))
        (load (sendbuf root) (sendtype.places (displs r * sendtype.extent) (sendcounts r)))
  | gatherv root sendtype sendcount recvtype recvcounts displs, r =>
    if r = root then
      collected size recvcounts displs recvtype (sendbuf root) 0
        (fun j => load (sendbuf j) ((sendtype j).places 0 (sendcount j))) root (recvbuf r)
    else
      recvbuf r

/-- **The copy decides.**  The results are as they are to be, whatever the buffers hold,
if and only if the own block of the root fits. -/
theorem result_eq_iff {size : Nat} {kind : RootedKind} (hlegal : kind.Legal size) :
    (∀ sendbuf recvbuf, ∀ r < size,
      kind.result size sendbuf recvbuf r = kind.expected size sendbuf recvbuf r) ↔
      kind.Fits := by
  cases kind with
  | scatterv root sendtype sendcounts displs recvtype recvcount =>
      obtain ⟨hroot, hsignature, hnodup⟩ := hlegal
      have hlength := (Datatype.length_offsets_eq (hsignature root hroot)).symm
      have hcopy := copy_eq_store_iff (α := UInt8) 0 (displs root * sendtype.extent)
        (recvcount root * sendtype.extent) (hnodup root hroot) hlength
      constructor
      · intro h
        refine hcopy.mp fun mem mem' => ?_
        have hown := h (fun _ => mem') (fun _ => mem) root hroot
        rwa [result, if_pos rfl] at hown
      · intro hfits sendbuf recvbuf r _
        rw [result]
        by_cases hrr : r = root
        · subst hrr
          rw [if_pos rfl]
          exact hcopy.mpr hfits _ _
        · rw [if_neg hrr, expected]
  | gatherv root sendtype sendcount recvtype recvcounts displs =>
      obtain ⟨hroot, hsignature, hapart⟩ := hlegal
      have hcopy := collected_eq_iff hroot hapart
        (fun j => (sendtype j).places 0 (sendcount j)) rfl (hsignature root hroot)
      constructor
      · intro h
        refine hcopy.mp fun sendbuf recvbuf => ?_
        have hown := h sendbuf (fun _ => recvbuf) root hroot
        rwa [result, if_pos rfl, expected, if_pos rfl] at hown
      · intro hfits sendbuf recvbuf r _
        rw [result, expected]
        by_cases hrr : r = root
        · rw [if_pos hrr, if_pos hrr]
          exact hcopy.mpr hfits sendbuf (recvbuf r)
        · rw [if_neg hrr, if_neg hrr]

end RootedKind

/-- `EMPI_Scatterv` or `EMPI_Gatherv`, with what is in the buffers of the members. -/
structure RootedCall where
  kind : RootedKind
  sendbuf : Nat → Int → UInt8
  recvbuf : Nat → Int → UInt8

namespace RootedCall

/-- What a member runs, where `pmpi` are the calls of the library. -/
def body (packing : List Basic → Packing UInt8)
    (pmpi : RootedCall → Nat → Caller UInt8 (Int → UInt8)) (call : RootedCall) (r : Nat)
    (p : Process) (c : Communicator) : Caller UInt8 (Int → UInt8) :=
  match call.kind with
  | .scatterv root sendtype sendcounts displs recvtype recvcount =>
    Empi.scatterv packing p c (pmpi call r) (call.sendbuf r) sendcounts displs sendtype
      (call.recvbuf r) (recvcount r) (recvtype r) root
  | .gatherv root sendtype sendcount recvtype recvcounts displs =>
    Empi.gatherv packing p c (pmpi call r) (call.sendbuf r) (sendcount r) (sendtype r)
      (call.recvbuf r) recvcounts displs recvtype root

/-- The messages: from the root to all others, or from all others to the root. -/
def blocks (packing : List Basic → Packing UInt8) (members : List Pid) (n : Nat)
    (call : RootedCall) : List (List (Lane × Packet UInt8)) :=
  match call.kind with
  | .scatterv root sendtype sendcounts displs _ _ =>
    transfers (fun _ d => packing (sendtype.signature (sendcounts d))) members n scattervTag
      (fun _ d => load (call.sendbuf root)
        (sendtype.places (displs d * sendtype.extent) (sendcounts d)))
      (pairsWith (fun d => (root, d)) members.length root)
  | .gatherv root sendtype sendcount _ _ _ =>
    transfers (fun s _ => packing ((sendtype s).signature (sendcount s))) members n gathervTag
      (fun s _ => load (call.sendbuf s) ((sendtype s).places 0 (sendcount s)))
      (pairsWith (fun s => (s, root)) members.length root)

/-- What is in the receive buffers after the call. -/
def result (size : Nat) (call : RootedCall) : Nat → Int → UInt8 :=
  call.kind.result size call.sendbuf call.recvbuf

/-- What is to be in them. -/
def expected (size : Nat) (call : RootedCall) : Nat → Int → UInt8 :=
  call.kind.expected size call.sendbuf call.recvbuf

variable {packing : List Basic → Packing UInt8} {members : List Pid} {n : Nat}

/-- All messages are among the members. -/
theorem inside_blocks {call : RootedCall} (hlegal : call.kind.Legal members.length) :
    ∀ b ∈ call.blocks packing members n,
      ∀ t ∈ b, t.1.source < members.length ∧ t.1.dest < members.length := by
  obtain ⟨kind, sendbuf, recvbuf⟩ := call
  unfold blocks
  cases kind with
  | scatterv root sendtype sendcounts displs recvtype recvcount =>
      apply inside_transfers
      intro t ht
      obtain ⟨d, hd, _, rfl⟩ := mem_pairsWith.mp ht
      exact ⟨hlegal.1, hd⟩
  | gatherv root sendtype sendcount recvtype recvcounts displs =>
      apply inside_transfers
      intro t ht
      obtain ⟨s, hs, _, rfl⟩ := mem_pairsWith.mp ht
      exact ⟨hs, hlegal.1⟩

/-- Nobody sends to itself. -/
theorem single_blocks (call : RootedCall) :
    ∀ b ∈ call.blocks packing members n, ∃ t, b = [t] ∧ t.1.source ≠ t.1.dest := by
  obtain ⟨kind, sendbuf, recvbuf⟩ := call
  unfold blocks
  cases kind with
  | scatterv root sendtype sendcounts displs recvtype recvcount =>
      apply single_transfers
      intro t ht
      obtain ⟨d, _, hroot, rfl⟩ := mem_pairsWith.mp ht
      exact Ne.symm hroot
  | gatherv root sendtype sendcount recvtype recvcounts displs =>
      apply single_transfers
      intro t ht
      obtain ⟨s, _, hroot, rfl⟩ := mem_pairsWith.mp ht
      exact hroot

end RootedCall

/-! ### What a member does -/

namespace View

variable {packing : List Basic → Packing UInt8} {members : List Pid} {n r root : Nat}
  {p : Process} {c : Communicator}

/-- **The loop of the root in a scatter.** -/
theorem follows_scatterTo (h : View members n r p c) (hpk : ∀ l, (packing l).Lawful)
    (sendbuf : Int → UInt8) {sendcounts : Nat → Nat} (displs : Nat → Int) {sendtype : Datatype}
    (hsend : ∀ d < members.length, clusterAt members d ≠ clusterAt members r →
      sendtype.Sendable packing (sendcounts d)) (recvcount : Nat) (recvbuf : Int → UInt8) :
    Follows ((List.range c.globalSize).foldlM
        (Empi.scatterTo packing p c sendbuf sendcounts displs sendtype recvcount) recvbuf)
      ((List.range members.length).flatMap fun d =>
        if d = r then []
        else [sendOf (fun _ d => packing (sendtype.signature (sendcounts d))) members n scattervTag
          (fun _ d => load sendbuf (sendtype.places (displs d * sendtype.extent) (sendcounts d)))
          r d])
      (copy recvbuf 0 sendbuf (displs r * sendtype.extent) (recvcount * sendtype.extent)) := by
  rw [h.mirrors.globalSize, ← foldl_only (fun mem => copy mem 0 sendbuf
    (displs r * sendtype.extent) (recvcount * sendtype.extent)) h.rank_lt recvbuf]
  refine Follows.foldlM_flatMap ?_ recvbuf
  intro mem d hd
  rw [Empi.scatterTo, h.globalRank]
  by_cases hown : d = r
  · rw [if_pos hown, if_pos hown, if_pos hown, hown]
    exact .done _
  · rw [if_neg hown, if_neg hown, if_neg hown]
    have hlt := List.mem_range.mp hd
    exact (h.follows_sendData hpk sendbuf _ (fun hne => hsend d hlt hne.symm) scattervTag hlt).bind
      (f := fun _ => (.done mem : Caller UInt8 (Int → UInt8))) (.done mem)

/-- **The part of a member** in a scatter or a gather over the wide area. -/
theorem follows_rooted (h : View members n r p c) (hremote : ¬ OneCluster members)
    (hpk : ∀ l, (packing l).Lawful) {call : RootedCall}
    (hlegal : call.kind.Legal members.length) (hsend : call.kind.Sendable packing members)
    (pmpi : RootedCall → Nat → Caller UInt8 (Int → UInt8)) :
    Follows (call.body packing pmpi r p c)
      (partOf Lane.source Lane.dest r (call.blocks packing members n))
      (call.result members.length r) := by
  have hlocal := h.not_commIsLocal hremote
  obtain ⟨kind, sendbuf, recvbuf⟩ := call
  cases kind with
  | scatterv root sendtype sendcounts displs recvtype recvcount =>
      obtain ⟨hroot, hsignature, _⟩ := hlegal
      simp only [RootedCall.body, RootedCall.blocks, RootedCall.result, RootedKind.result,
        Empi.scatterv, if_neg hlocal, Empi.waScatterv, h.globalRank]
      by_cases hrr : r = root
      · subst hrr
        rw [if_pos rfl, if_pos rfl, partOf_scatter_root]
        exact h.follows_scatterTo hpk _ _ hsend _ _
      · rw [if_neg hrr, if_neg hrr, partOf_scatter_other h.rank_lt hrr]
        refine h.follows_recvData hpk (recvbuf r) 0 (hsignature r h.rank_lt) ?_ ?_ scattervTag hroot
        · intro hne
          exact (Datatype.sendable_congr (hsignature r h.rank_lt)).mp
            (hsend r h.rank_lt hne.symm)
        · rw [length_load, Datatype.length_places]
          exact (Datatype.length_offsets_eq (hsignature r h.rank_lt)).symm
  | gatherv root sendtype sendcount recvtype recvcounts displs =>
      obtain ⟨hroot, hsignature, _⟩ := hlegal
      simp only [RootedCall.body, RootedCall.blocks, RootedCall.result, RootedKind.result,
        Empi.gatherv, if_neg hlocal, Empi.waGatherv, h.globalRank]
      by_cases hrr : r = root
      · subst hrr
        rw [if_pos rfl, if_pos rfl, partOf_gather_root]
        refine h.follows_collectFrom hpk (fun j => (sendtype j).signature (sendcount j))
          (fun j hj _ => hsignature j hj) (fun j hj hne => ?_) (fun j hj _ => ?_) (recvbuf r)
        · exact (Datatype.sendable_congr (hsignature j hj)).mp (hsend j hj hne)
        · rw [length_load, Datatype.length_places]
          exact (Datatype.length_offsets_eq (hsignature j hj)).symm
      · rw [if_neg hrr, if_neg hrr, partOf_gather_other h.rank_lt hrr]
        exact (h.follows_sendData hpk (sendbuf r) 0 (hsend r h.rank_lt) gathervTag hroot).bind
          (f := fun _ => (.done (recvbuf r) : Caller UInt8 (Int → UInt8))) (.done _)

/-- **Somebody is stuck** where a block for another cluster does not fit into a message: the
root of a scatter, or a member that sends to the root of a gather. -/
theorem exists_doomed_rooted (hremote : ¬ OneCluster members) (call : RootedCall)
    (hlegal : call.kind.Legal members.length) (hsend : ¬ call.kind.Sendable packing members)
    (pmpi : RootedCall → Nat → Caller UInt8 (Int → UInt8)) :
    ∃ r < members.length, ∀ p c, View members n r p c →
      Doomed (call.body packing pmpi r p c) := by
  obtain ⟨kind, sendbuf, recvbuf⟩ := call
  cases kind with
  | scatterv root sendtype sendcounts displs recvtype recvcount =>
      obtain ⟨d, hd, hcluster, hlong⟩ :
          ∃ d < members.length, clusterAt members d ≠ clusterAt members root ∧
            ¬ sendtype.Sendable packing (sendcounts d) := by
        simpa only [RootedKind.Sendable, not_forall, exists_prop] using hsend
      refine ⟨root, hlegal.1, fun p c h => ?_⟩
      have hown : d ≠ c.globalRank := by
        rintro rfl
        exact hcluster (by rw [h.globalRank])
      simp only [RootedCall.body, Empi.scatterv, if_neg (h.not_commIsLocal hremote),
        Empi.waScatterv, if_pos h.globalRank, h.mirrors.globalSize]
      refine Doomed.foldlM (List.mem_range.mpr hd) (fun mem => ?_) _
      rw [Empi.scatterTo, if_neg hown, h.sendData_eq_fail hlong hcluster _ _ _ hd]
      exact .fail
  | gatherv root sendtype sendcount recvtype recvcounts displs =>
      obtain ⟨s, hs, hcluster, hlong⟩ :
          ∃ s < members.length, clusterAt members s ≠ clusterAt members root ∧
            ¬ (sendtype s).Sendable packing (sendcount s) := by
        simpa only [RootedKind.Sendable, not_forall, exists_prop] using hsend
      refine ⟨s, hs, fun p c h => ?_⟩
      have hown : ¬ c.globalRank = root := by
        rw [h.globalRank]
        rintro rfl
        exact hcluster rfl
      simp only [RootedCall.body, Empi.gatherv, if_neg (h.not_commIsLocal hremote),
        Empi.waGatherv, if_neg hown, h.sendData_eq_fail hlong hcluster.symm _ _ _ hlegal.1]
      exact .fail

theorem polite_rooted (h : View members n r p c) (hremote : ¬ OneCluster members)
    (call : RootedCall) (pmpi : RootedCall → Nat → Caller UInt8 (Int → UInt8)) :
    Polite members n r (call.body packing pmpi r p c) := by
  have hlocal := h.not_commIsLocal hremote
  obtain ⟨kind, sendbuf, recvbuf⟩ := call
  cases kind with
  | scatterv root sendtype sendcounts displs recvtype recvcount =>
      simp only [RootedCall.body, Empi.scatterv, if_neg hlocal, Empi.waScatterv]
      split
      · refine Keeps.foldlM (fun mem d _ => ?_) _
        unfold Empi.scatterTo
        split
        · exact .done _
        · exact (h.polite_sendData (by decide) _ _ _ _ d).bind fun _ => .done mem
      · exact h.polite_recvData (by decide) _ _ _ _ root
  | gatherv root sendtype sendcount recvtype recvcounts displs =>
      simp only [RootedCall.body, Empi.gatherv, if_neg hlocal, Empi.waGatherv]
      split
      · exact h.polite_collectFrom (by decide) _
      · exact (h.polite_sendData (by decide) _ _ _ _ root).bind fun _ => .done _

end View

namespace System

variable {cfg : Server.Config} {order : Server.HashOrder} {s : System} {n : Nat}
  {sc : Server.Communicator} {packing : List Basic → Packing UInt8}
  {ready : Session UInt8 (Int → UInt8) → Lane → Prop}

/-- A scatter or a gather over the wide area is performed, with what the own copy of the
root makes of its block. -/
theorem performed_rooted (hreach : System.Reachable cfg order s)
    (hsc : s.server[n]? = some (some sc))
    (hrunning : ∀ pid ∈ sc.tables.members, (s.processes pid).isSome)
    (hremote : ¬ OneCluster sc.tables.members) (hpk : ∀ l, (packing l).Lawful)
    (pmpi : RootedCall → Nat → Caller UInt8 (Int → UInt8)) {call : RootedCall}
    (hlegal : call.kind.Legal sc.tables.members.length)
    (hsend : call.kind.Sendable packing sc.tables.members) :
    Session.Performed sc.tables.members n (fun b => ∃ t, b = [t] ∧ t.1.source ≠ t.1.dest)
      (s.caller n sc.tables.members (call.body packing pmpi))
      (call.result sc.tables.members.length) := by
  refine performed hreach hsc hrunning (call.blocks packing sc.tables.members n) ?_ ?_
    (RootedCall.inside_blocks hlegal) (RootedCall.single_blocks call)
  · intro r p c hview
    exact hview.polite_rooted hremote call pmpi
  · intro r p c hview
    exact hview.follows_rooted hremote hpk hlegal hsend pmpi

/-- **Scatters and gathers.**  On a communicator of a run that is not in one cluster, all
rows of scatters and gathers of some kinds deliver to every rank its block and nothing
else, if and only if for each kind the own block of the root has the same places on both
sides, which are just what is copied, and what goes to other clusters fits into messages. -/
theorem rooted_deliver_iff (hprompt : Session.Prompt ready)
    (hreach : System.Reachable cfg order s) (hsc : s.server[n]? = some (some sc))
    (hrunning : ∀ pid ∈ sc.tables.members, (s.processes pid).isSome)
    (hremote : ¬ OneCluster sc.tables.members) (hpk : ∀ l, (packing l).Lawful)
    (pmpi : RootedCall → Nat → Caller UInt8 (Int → UInt8)) (kinds : Set RootedKind)
    (hlegal : ∀ kind ∈ kinds, kind.Legal sc.tables.members.length) :
    (∀ calls : List RootedCall, (∀ call ∈ calls, call.kind ∈ kinds) →
        Session.Delivers sc.tables.members n ready
          (s.session n sc.tables.members (calls.map (RootedCall.body packing pmpi)))
          fun r => calls.map fun call => call.expected sc.tables.members.length r) ↔
      ∀ kind ∈ kinds, kind.Fits ∧ kind.Sendable packing sc.tables.members := by
  constructor
  · intro hall kind hkind
    have hcall : ∀ sendbuf recvbuf, ∀ call' ∈ [(⟨kind, sendbuf, recvbuf⟩ : RootedCall)],
        call'.kind ∈ kinds := by
      intro sendbuf recvbuf call' hcall'
      rw [List.mem_singleton.mp hcall']
      exact hkind
    have hsend : kind.Sendable packing sc.tables.members := by
      by_contra hlong
      let call : RootedCall := ⟨kind, fun _ _ => 0, fun _ _ => 0⟩
      obtain ⟨r, hr, hdoomed⟩ := View.exists_doomed_rooted (n := n) hremote call
        (hlegal kind hkind) hlong pmpi
      refine not_delivers hreach hsc hrunning ?_ (List.mem_singleton_self call) hr hdoomed ready _
        (hall [call] (hcall _ _))
      intro call' _ r p c hview
      exact hview.polite_rooted hremote call' pmpi
    refine ⟨(RootedKind.result_eq_iff (hlegal kind hkind)).mp fun sendbuf recvbuf r hr => ?_, hsend⟩
    let call : RootedCall := ⟨kind, sendbuf, recvbuf⟩
    have hdone : Session.Delivers sc.tables.members n ready
        (s.session n sc.tables.members ([call].map (RootedCall.body packing pmpi)))
        fun r => [call].map fun call => call.result sc.tables.members.length r :=
      delivers_prompt hprompt hreach hsc hrunning fun call' hcall' => by
        rw [List.mem_singleton.mp hcall']
        exact performed_rooted hreach hsc hrunning hremote hpk pmpi (hlegal kind hkind) hsend
    have hsame := hdone.unique (hall [call] (hcall _ _)) hr rfl
    exact List.head_eq_of_cons_eq hsame
  · intro hfits calls hcalls
    refine delivers_prompt hprompt hreach hsc hrunning fun call hcall => ?_
    have hkind := hcalls call hcall
    refine (performed_rooted hreach hsc hrunning hremote hpk pmpi (hlegal _ hkind)
      (hfits _ hkind).2).congr ?_
    exact (RootedKind.result_eq_iff (hlegal _ hkind)).mpr (hfits _ hkind).1 _ _

/-! ### Two datatypes -/

/-- `EMPI_INT`. -/
def empiInt : Datatype := ⟨3, [(⟨3, 4⟩, 0)], 4⟩

/-- `EMPI_2INT`. -/
def empi2Int : Datatype := ⟨21, [(⟨3, 4⟩, 0), (⟨3, 4⟩, 4)], 8⟩

theorem not_oneCluster_pair : ¬ OneCluster (Server.worldMembers .pair) := by
  rintro ⟨_, hsame⟩
  have hclusters := hsame (setPid 0 0) (by decide) (setPid 1 0) (by decide)
  revert hclusters
  decide

/-- A scatter of two `EMPI_INT` to each process, which receive them as one `EMPI_2INT`. -/
def intsToPairs : RootedCall :=
  ⟨.scatterv 0 empiInt (fun _ => 2) (fun r => 2 * r) (fun _ => empi2Int) (fun _ => 1),
    fun _ a => UInt8.ofNat (a.toNat + 1), fun _ _ => 0⟩

/-- The root gets only the first one of its two elements. -/
theorem not_rooted_deliver_intsToPairs :
    intsToPairs.kind.Legal (Server.worldMembers .pair).length ∧
      ¬ Session.Delivers (Server.worldMembers .pair) 0 Session.Eager
        ((start .pair pairServer).session 0 (Server.worldMembers .pair)
          ([intsToPairs].map (RootedCall.body (fun _ => bytePacking) fun _ _ => .fail)))
        fun r => [intsToPairs.expected (Server.worldMembers .pair).length r] := by
  have hworld : (start .pair pairServer).server[0]? = some (some
      (Server.Communicator.fresh 0 (Server.tablesSpec (Server.worldMembers .pair)))) := rfl
  have hlegal : intsToPairs.kind.Legal (Server.worldMembers .pair).length :=
    ⟨by decide, fun _ _ => show empiInt.signature 2 = empi2Int.signature 1 by decide,
      fun _ _ => show (empi2Int.offsets 1).Nodup by decide⟩
  refine ⟨hlegal, fun hdelivers => ?_⟩
  have hdone : Session.Delivers (Server.worldMembers .pair) 0 Session.Eager
      ((start .pair pairServer).session 0 (Server.worldMembers .pair)
        ([intsToPairs].map (RootedCall.body (fun _ => bytePacking) fun _ _ => .fail)))
      fun r => [intsToPairs].map fun call =>
        call.result (Server.worldMembers .pair).length r := by
    refine delivers_prompt (fun _ _ _ => trivial) reachable_pair hworld running_pair ?_
    intro call hcall
    rw [List.mem_singleton.mp hcall]
    exact performed_rooted reachable_pair hworld running_pair not_oneCluster_pair
      (fun _ => bytePacking_lawful) _ hlegal
      fun _ _ _ => Datatype.sendable_byte.mpr (show dataMessageSize + (empiInt.offsets 2).length <
        2 ^ 31 by decide)
  have hsame := hdone.unique hdelivers (r := 0) (by decide) rfl
  have hbyte := congrFun (List.head_eq_of_cons_eq hsame) 4
  revert hbyte
  decide

/-- A scatter of two `EMPI_INT` to each process. -/
def intsToInts : RootedCall :=
  ⟨.scatterv 0 empiInt (fun _ => 2) (fun r => 2 * r) (fun _ => empiInt) (fun _ => 2),
    fun _ a => UInt8.ofNat (a.toNat + 1), fun _ _ => 0⟩

/-- A gather of one `EMPI_2INT` of each process at process 1. -/
def pairsToPairs : RootedCall :=
  ⟨.gatherv 1 (fun _ => empi2Int) (fun _ => 1) empi2Int (fun _ => 1) (fun r => (1 : Nat) * r),
    fun r a => UInt8.ofNat (a.toNat + 10 * r), fun _ _ => 0⟩

/-- Two processes run both, one after the other. -/
theorem rooted_deliver_pair :
    Session.Delivers (Server.worldMembers .pair) 0 Session.Awaited
      ((start .pair pairServer).session 0 (Server.worldMembers .pair)
        ([intsToInts, pairsToPairs].map
          (RootedCall.body (fun _ => bytePacking) fun _ _ => .fail)))
      fun r => [intsToInts, pairsToPairs].map fun call =>
        call.expected (Server.worldMembers .pair).length r := by
  have hworld : (start .pair pairServer).server[0]? = some (some
      (Server.Communicator.fresh 0 (Server.tablesSpec (Server.worldMembers .pair)))) := rfl
  refine (rooted_deliver_iff (fun _ _ h => h) reachable_pair hworld running_pair
    not_oneCluster_pair (fun _ => bytePacking_lawful) _
    {intsToInts.kind, pairsToPairs.kind} ?_).mpr ?_ _ ?_
  · rintro kind (rfl | rfl)
    · exact ⟨by decide, fun _ _ => rfl, fun _ _ => show (empiInt.offsets 2).Nodup by decide⟩
    · exact ⟨by decide, fun _ _ => rfl, apart_self rfl _ 1⟩
  · rintro kind (rfl | rfl)
    · exact ⟨fills_self rfl 2, fun _ _ _ => Datatype.sendable_byte.mpr
        (show dataMessageSize + (empiInt.offsets 2).length < 2 ^ 31 by decide)⟩
    · exact ⟨fills_self rfl 1, fun _ _ _ => Datatype.sendable_byte.mpr
        (show dataMessageSize + (empi2Int.offsets 1).length < 2 ^ 31 by decide)⟩
  · intro call hcall
    rcases List.mem_pair.mp hcall with rfl | rfl
    · exact Or.inl rfl
    · exact Or.inr rfl

end System

end EsalsaMpi
