import EsalsaMpi.Backend.Member.Alltoall

/-!
# Scatter and gather of equal blocks

`EMPI_Scatter` and `EMPI_Gather` compute counts and displacements for `WA_Scatterv` and
`WA_Gatherv`, at the root only; the others pass null pointers, which are not read.  The members
then do what they do in `EMPI_Scatterv` and `EMPI_Gatherv` (`View.body_rooted`), so all get their
blocks if and only if the displacements of the root fit in an `int`, its own block has the same
places on both sides, and the blocks that go to another cluster fit into messages
(`System.equal_deliver_iff`).
-/

namespace EsalsaMpi

open ProcessNetwork Placement

namespace Empi

variable (packing : List Basic → Packing UInt8) (p : Process) (c : Communicator)

/-- The counts and displacements for `count` elements each; they are computed at the root. -/
def equalBlocks (count root : Nat) : Caller UInt8 ((Nat → Nat) × (Nat → Int)) :=
  if c.globalRank = root then do
    let displs ← .ofOption (displacements count c.globalSize)
    .done (fun _ => count, displs)
  else
    .done (fun _ => 0, fun _ => 0)

/-- `EMPI_Scatter`, where `pmpi` is the call of the library. -/
def scatter (pmpi : Caller UInt8 (Int → UInt8)) (sendbuf : Int → UInt8) (sendcount : Nat)
    (sendtype : Datatype) (recvbuf : Int → UInt8) (recvcount : Nat) (recvtype : Datatype)
    (root : Nat) : Caller UInt8 (Int → UInt8) :=
  if c.commIsLocal then pmpi
  else do
    let blocks ← equalBlocks c sendcount root
    waScatterv packing p c sendbuf blocks.1 blocks.2 sendtype recvbuf recvcount recvtype root

/-- `EMPI_Gather`, where `pmpi` is the call of the library. -/
def gather (pmpi : Caller UInt8 (Int → UInt8)) (sendbuf : Int → UInt8) (sendcount : Nat)
    (sendtype : Datatype) (recvbuf : Int → UInt8) (recvcount : Nat) (recvtype : Datatype)
    (root : Nat) : Caller UInt8 (Int → UInt8) :=
  if c.commIsLocal then pmpi
  else do
    let blocks ← equalBlocks c recvcount root
    waGatherv packing p c sendbuf sendcount sendtype recvbuf blocks.1 blocks.2 recvtype root

end Empi

/-! ### The calls -/

/-- What the members pass to `EMPI_Scatter` or `EMPI_Gather`, but for the buffers. -/
inductive EqualKind where
  | scatter (root : Nat) (sendtype : Datatype) (sendcount : Nat) (recvtype : Nat → Datatype)
    (recvcount : Nat → Nat)
  | gather (root : Nat) (sendtype : Nat → Datatype) (sendcount : Nat → Nat)
    (recvtype : Datatype) (recvcount : Nat)

namespace EqualKind

/-- The scatter or gather of blocks that this is. -/
def rooted : EqualKind → RootedKind
  | scatter root sendtype sendcount recvtype recvcount =>
    .scatterv root sendtype (fun _ => sendcount) (fun i => sendcount * i) recvtype recvcount
  | gather root sendtype sendcount recvtype recvcount =>
    .gatherv root sendtype sendcount recvtype (fun _ => recvcount) fun i => recvcount * i

/-- How many elements the root has for each rank, or is to get from it. -/
def count : EqualKind → Nat
  | scatter _ _ sendcount _ _ => sendcount
  | gather _ _ _ _ recvcount => recvcount

/-- All displacements fit in an `int`. -/
def InRange (size : Nat) (kind : EqualKind) : Prop := ∀ i < size, kind.count * i < 2 ^ 31

/-- The displacements can be computed, and the own block of the root has the same places on both
sides, which are just what is copied. -/
def Fits (size : Nat) (kind : EqualKind) : Prop := kind.InRange size ∧ kind.rooted.Fits

end EqualKind

/-- `EMPI_Scatter` or `EMPI_Gather`, with what is in the buffers of the members. -/
structure EqualCall where
  kind : EqualKind
  sendbuf : Nat → Int → UInt8
  recvbuf : Nat → Int → UInt8

namespace EqualCall

/-- What a member runs, where `pmpi` are the calls of the library. -/
def body (packing : List Basic → Packing UInt8)
    (pmpi : EqualCall → Nat → Caller UInt8 (Int → UInt8)) (call : EqualCall) (r : Nat)
    (p : Process) (c : Communicator) : Caller UInt8 (Int → UInt8) :=
  match call.kind with
  | .scatter root sendtype sendcount recvtype recvcount =>
    Empi.scatter packing p c (pmpi call r) (call.sendbuf r) sendcount sendtype (call.recvbuf r)
      (recvcount r) (recvtype r) root
  | .gather root sendtype sendcount recvtype recvcount =>
    Empi.gather packing p c (pmpi call r) (call.sendbuf r) (sendcount r) (sendtype r)
      (call.recvbuf r) recvcount recvtype root

/-- The scatter or gather of blocks that this is. -/
def rooted (call : EqualCall) : RootedCall := ⟨call.kind.rooted, call.sendbuf, call.recvbuf⟩

end EqualCall

/-! ### What a member does -/

namespace View

variable {packing : List Basic → Packing UInt8} {members : List Pid} {n r : Nat} {p : Process}
  {c : Communicator} {call : EqualCall}

/-- What the root computes. -/
theorem equalBlocks_root (h : View members n r p c) (count : Nat)
    (hrange : ∀ i < members.length, count * i < 2 ^ 31) :
    Empi.equalBlocks c count r = .done (fun _ => count, fun i => count * i) := by
  rw [Empi.equalBlocks, if_pos h.globalRank, h.mirrors.globalSize, Empi.displacements,
    if_pos hrange]
  rfl

/-- **A member does** what it does for such blocks, where the displacements fit. -/
theorem body_rooted (h : View members n r p c) (hremote : ¬ OneCluster members)
    (hrange : call.kind.InRange members.length)
    (pmpi : EqualCall → Nat → Caller UInt8 (Int → UInt8))
    (pmpi' : RootedCall → Nat → Caller UInt8 (Int → UInt8)) :
    call.body packing pmpi r p c = call.rooted.body packing pmpi' r p c := by
  have hlocal := h.not_commIsLocal hremote
  obtain ⟨kind, sendbuf, recvbuf⟩ := call
  cases kind with
  | scatter root sendtype sendcount recvtype recvcount =>
      simp only [EqualCall.body, EqualCall.rooted, EqualKind.rooted, RootedCall.body,
        Empi.scatter, Empi.scatterv, if_neg hlocal]
      by_cases hroot : r = root
      · subst hroot
        rw [h.equalBlocks_root sendcount hrange]
        rfl
      · have hother : ¬ c.globalRank = root := by rwa [h.globalRank]
        rw [Empi.equalBlocks, if_neg hother]
        show Empi.waScatterv _ _ _ _ _ _ _ _ _ _ _ = _
        simp only [Empi.waScatterv, if_neg hother]
  | gather root sendtype sendcount recvtype recvcount =>
      simp only [EqualCall.body, EqualCall.rooted, EqualKind.rooted, RootedCall.body,
        Empi.gather, Empi.gatherv, if_neg hlocal]
      by_cases hroot : r = root
      · subst hroot
        rw [h.equalBlocks_root recvcount hrange]
        rfl
      · have hother : ¬ c.globalRank = root := by rwa [h.globalRank]
        rw [Empi.equalBlocks, if_neg hother]
        show Empi.waGatherv _ _ _ _ _ _ _ _ _ _ _ = _
        simp only [Empi.waGatherv, if_neg hother]

/-- **The root does not get through** where it cannot compute its displacements. -/
theorem doomed_equal (h : View members n call.kind.rooted.root p c)
    (hremote : ¬ OneCluster members) (hrange : ¬ call.kind.InRange members.length)
    (pmpi : EqualCall → Nat → Caller UInt8 (Int → UInt8)) :
    Doomed (call.body packing pmpi call.kind.rooted.root p c) := by
  have hlocal := h.not_commIsLocal hremote
  have hblocks : Doomed (Empi.equalBlocks c call.kind.count call.kind.rooted.root) := by
    rw [Empi.equalBlocks, if_pos h.globalRank, h.mirrors.globalSize, Empi.displacements,
      if_neg (show ¬ ∀ i < members.length, call.kind.count * i < 2 ^ 31 from hrange)]
    exact Doomed.fail.bind _
  obtain ⟨kind, sendbuf, recvbuf⟩ := call
  cases kind with
  | scatter root sendtype sendcount recvtype recvcount =>
      simp only [EqualCall.body, Empi.scatter, if_neg hlocal]
      exact hblocks.bind _
  | gather root sendtype sendcount recvtype recvcount =>
      simp only [EqualCall.body, Empi.gather, if_neg hlocal]
      exact hblocks.bind _

theorem polite_waScatterv (h : View members n r p c) (sendbuf : Int → UInt8)
    (sendcounts : Nat → Nat) (displs : Nat → Int) (sendtype : Datatype) (recvbuf : Int → UInt8)
    (recvcount : Nat) (recvtype : Datatype) (root : Nat) :
    Polite members n r (Empi.waScatterv packing p c sendbuf sendcounts displs sendtype recvbuf
      recvcount recvtype root) := by
  unfold Empi.waScatterv
  split
  · refine Keeps.foldlM (fun mem d _ => ?_) _
    unfold Empi.scatterTo
    split
    · exact .done _
    · exact (h.polite_sendData (by decide) _ _ _ _ d).bind fun _ => .done mem
  · exact h.polite_recvData (by decide) _ _ _ _ root

theorem polite_waGatherv (h : View members n r p c) (sendbuf : Int → UInt8) (sendcount : Nat)
    (sendtype : Datatype) (recvbuf : Int → UInt8) (recvcounts : Nat → Nat) (displs : Nat → Int)
    (recvtype : Datatype) (root : Nat) :
    Polite members n r (Empi.waGatherv packing p c sendbuf sendcount sendtype recvbuf recvcounts
      displs recvtype root) := by
  unfold Empi.waGatherv
  split
  · exact h.polite_collectFrom (by decide) _
  · exact (h.polite_sendData (by decide) _ _ _ _ root).bind fun _ => .done _

theorem polite_equal (h : View members n r p c) (hremote : ¬ OneCluster members)
    (call : EqualCall) (pmpi : EqualCall → Nat → Caller UInt8 (Int → UInt8)) :
    Polite members n r (call.body packing pmpi r p c) := by
  have hlocal := h.not_commIsLocal hremote
  have hblocks : ∀ count root, Polite members n r (Empi.equalBlocks c count root) := by
    intro count root
    unfold Empi.equalBlocks
    split
    · exact (Keeps.ofOption _).bind fun _ => .done _
    · exact .done _
  obtain ⟨kind, sendbuf, recvbuf⟩ := call
  cases kind with
  | scatter root sendtype sendcount recvtype recvcount =>
      simp only [EqualCall.body, Empi.scatter, if_neg hlocal]
      exact (hblocks sendcount root).bind fun _ => h.polite_waScatterv _ _ _ _ _ _ _ root
  | gather root sendtype sendcount recvtype recvcount =>
      simp only [EqualCall.body, Empi.gather, if_neg hlocal]
      exact (hblocks recvcount root).bind fun _ => h.polite_waGatherv _ _ _ _ _ _ _ root

end View

namespace System

variable {cfg : Server.Config} {order : Server.HashOrder} {s : System} {n : Nat}
  {sc : Server.Communicator} {packing : List Basic → Packing UInt8}
  {ready : Session UInt8 (Int → UInt8) → Lane → Prop}

/-- Only what the members run matters. -/
theorem caller_congr {α β : Type} (hreach : System.Reachable cfg order s)
    (hsc : s.server[n]? = some (some sc))
    (hrunning : ∀ pid ∈ sc.tables.members, (s.processes pid).isSome)
    {body body' : Nat → Process → Communicator → Caller α β}
    (h : ∀ r p c, View sc.tables.members n r p c → body r p c = body' r p c) :
    s.caller n sc.tables.members body = s.caller n sc.tables.members body' := by
  funext r
  by_cases hr : r < sc.tables.members.length
  · obtain ⟨p, c, hview, _, hbody⟩ := exists_view (α := α) (β := β) hreach hsc hrunning hr
    rw [hbody, hbody, h r p c hview]
  · rw [caller, caller, List.getElem?_eq_none (Nat.le_of_not_lt hr)]

/-- Such calls are calls for blocks, where the displacements fit. -/
theorem caller_equal (hreach : System.Reachable cfg order s)
    (hsc : s.server[n]? = some (some sc))
    (hrunning : ∀ pid ∈ sc.tables.members, (s.processes pid).isSome)
    (hremote : ¬ OneCluster sc.tables.members)
    (pmpi : EqualCall → Nat → Caller UInt8 (Int → UInt8))
    (pmpi' : RootedCall → Nat → Caller UInt8 (Int → UInt8)) {call : EqualCall}
    (hrange : call.kind.InRange sc.tables.members.length) :
    s.caller n sc.tables.members (call.body packing pmpi) =
      s.caller n sc.tables.members (call.rooted.body packing pmpi') :=
  caller_congr hreach hsc hrunning fun _ _ _ hview =>
    hview.body_rooted hremote hrange pmpi pmpi'

/-- A call that has come to its end at all members was in range. -/
theorem inRange_of_equal (hreach : System.Reachable cfg order s)
    (hsc : s.server[n]? = some (some sc))
    (hrunning : ∀ pid ∈ sc.tables.members, (s.processes pid).isSome)
    (hremote : ¬ OneCluster sc.tables.members)
    {pmpi : EqualCall → Nat → Caller UInt8 (Int → UInt8)} (call : EqualCall)
    (hroot : call.kind.rooted.root < sc.tables.members.length)
    {results : Nat → List (Int → UInt8)}
    (h : Session.Delivers sc.tables.members n ready
      (s.session n sc.tables.members ([call].map (EqualCall.body packing pmpi))) results) :
    call.kind.InRange sc.tables.members.length := by
  by_contra hrange
  refine not_delivers hreach hsc hrunning ?_ (List.mem_singleton_self _) hroot ?_ ready results h
  · intro call _ r p c hview
    exact hview.polite_equal hremote call pmpi
  · intro p c hview
    exact hview.doomed_equal hremote hrange pmpi

/-- The blocks that it sent to other clusters fitted into messages. -/
theorem sendable_of_equal (hreach : System.Reachable cfg order s)
    (hsc : s.server[n]? = some (some sc))
    (hrunning : ∀ pid ∈ sc.tables.members, (s.processes pid).isSome)
    (hremote : ¬ OneCluster sc.tables.members)
    {pmpi : EqualCall → Nat → Caller UInt8 (Int → UInt8)} (call : EqualCall)
    (hlegal : call.kind.rooted.Legal sc.tables.members.length)
    (hrange : call.kind.InRange sc.tables.members.length) {results : Nat → List (Int → UInt8)}
    (h : Session.Delivers sc.tables.members n ready
      (s.session n sc.tables.members ([call].map (EqualCall.body packing pmpi))) results) :
    call.kind.rooted.Sendable packing sc.tables.members := by
  by_contra hlong
  obtain ⟨r, hr, hdoomed⟩ := View.exists_doomed_rooted (n := n) hremote call.rooted hlegal
    hlong fun _ _ => .fail
  refine not_delivers hreach hsc hrunning ?_ (List.mem_singleton_self _) hr ?_ ready results h
  · intro call _ r p c hview
    exact hview.polite_equal hremote call pmpi
  · intro p c hview
    rw [hview.body_rooted hremote hrange pmpi fun _ _ => .fail]
    exact hdoomed p c hview

/-- **Scatters and gathers of equal blocks.**  On a communicator of a run that is not in one
cluster, all rows of such calls of some kinds deliver to every rank its block and nothing else,
even where sends wait for their receives, if and only if for each kind the displacements of the
root can be computed, its own block has the same places on both sides, which are just what is
copied, and what goes to other clusters fits into messages. -/
theorem equal_deliver_iff (hprompt : Session.Prompt ready)
    (hreach : System.Reachable cfg order s) (hsc : s.server[n]? = some (some sc))
    (hrunning : ∀ pid ∈ sc.tables.members, (s.processes pid).isSome)
    (hremote : ¬ OneCluster sc.tables.members) (hpk : ∀ l, (packing l).Lawful)
    (pmpi : EqualCall → Nat → Caller UInt8 (Int → UInt8)) (kinds : Set EqualKind)
    (hlegal : ∀ kind ∈ kinds, kind.rooted.Legal sc.tables.members.length) :
    (∀ calls : List EqualCall, (∀ call ∈ calls, call.kind ∈ kinds) →
        Session.Delivers sc.tables.members n ready
          (s.session n sc.tables.members (calls.map (EqualCall.body packing pmpi)))
          fun r => calls.map fun call => call.rooted.expected sc.tables.members.length r) ↔
      ∀ kind ∈ kinds, kind.Fits sc.tables.members.length ∧
        kind.rooted.Sendable packing sc.tables.members := by
  let pmpi' : RootedCall → Nat → Caller UInt8 (Int → UInt8) := fun _ _ => .fail
  have hroot : ∀ kind : RootedKind, kind.Legal sc.tables.members.length →
      kind.root < sc.tables.members.length := by
    intro kind h
    cases kind with
    | scatterv => exact h.1
    | gatherv => exact h.1
  constructor
  · intro hall kind hkind
    have hone : ∀ call : EqualCall, call.kind = kind → Session.Delivers sc.tables.members n ready
        (s.session n sc.tables.members ([call].map (EqualCall.body packing pmpi)))
        fun r => [call.rooted.expected sc.tables.members.length r] := fun call hcall =>
      hall [call] fun call' hcall' => by
        rw [List.mem_singleton.mp hcall', hcall]
        exact hkind
    have hrange : kind.InRange sc.tables.members.length :=
      inRange_of_equal hreach hsc hrunning hremote ⟨kind, fun _ _ => 0, fun _ _ => 0⟩
        (hroot _ (hlegal kind hkind)) (hone _ rfl)
    have hsend : kind.rooted.Sendable packing sc.tables.members :=
      sendable_of_equal hreach hsc hrunning hremote ⟨kind, fun _ _ => 0, fun _ _ => 0⟩
        (hlegal kind hkind) hrange (hone _ rfl)
    refine ⟨⟨hrange, (RootedKind.result_eq_iff (hlegal kind hkind)).mp
      fun sendbuf recvbuf r hr => ?_⟩, hsend⟩
    let call : EqualCall := ⟨kind, sendbuf, recvbuf⟩
    have hdone : Session.Delivers sc.tables.members n ready
        (s.session n sc.tables.members ([call].map (EqualCall.body packing pmpi)))
        fun r => [call].map fun call => call.rooted.result sc.tables.members.length r := by
      refine delivers_prompt hprompt hreach hsc hrunning fun call' hcall' => ?_
      rw [List.mem_singleton.mp hcall',
        caller_equal hreach hsc hrunning hremote pmpi pmpi' (show call.kind.InRange _ from hrange)]
      exact performed_rooted hreach hsc hrunning hremote hpk pmpi' (hlegal kind hkind) hsend
    exact List.head_eq_of_cons_eq (hdone.unique (hone call rfl) hr rfl)
  · intro hfits calls hcalls
    refine delivers_prompt hprompt hreach hsc hrunning fun call hcall => ?_
    obtain ⟨⟨hrange, hfit⟩, hsend⟩ := hfits _ (hcalls call hcall)
    have hlegal := hlegal _ (hcalls call hcall)
    rw [caller_equal hreach hsc hrunning hremote pmpi pmpi' hrange]
    refine (performed_rooted hreach hsc hrunning hremote hpk pmpi' hlegal hsend).congr ?_
    exact (RootedKind.result_eq_iff hlegal).mpr hfit _ _

/-! ### Two calls -/

/-- An `EMPI_INT` for each process, from process 1. -/
def scatterInts : EqualCall :=
  ⟨.scatter 1 empiInt 1 (fun _ => empiInt) (fun _ => 1),
    fun r a => UInt8.ofNat (a.toNat + r), fun _ _ => 0⟩

/-- Two `EMPI_INT` of each process, as one `EMPI_2INT`, at process 0. -/
def gatherPairs : EqualCall :=
  ⟨.gather 0 (fun _ => empi2Int) (fun _ => 1) empi2Int 1,
    fun r a => UInt8.ofNat (a.toNat + 10 * r), fun _ _ => 0⟩

theorem legal_scatterInts : scatterInts.kind.rooted.Legal (Server.worldMembers .triple).length :=
  ⟨by decide, fun _ _ => rfl, fun _ _ => show (empiInt.offsets 1).Nodup by decide⟩

theorem fits_scatterInts : scatterInts.kind.Fits (Server.worldMembers .triple).length :=
  ⟨show ∀ i < 3, 1 * i < 2 ^ 31 by decide, fills_self rfl 1⟩

/-- Three processes run both, where each send waits for its receive. -/
theorem equal_deliver_triple :
    Session.Delivers (Server.worldMembers .triple) 0 Session.Awaited
      ((start .triple tripleServer).session 0 (Server.worldMembers .triple)
        ([scatterInts, gatherPairs].map (EqualCall.body (fun _ => bytePacking) fun _ _ => .fail)))
      fun r => [scatterInts, gatherPairs].map fun call =>
        call.rooted.expected (Server.worldMembers .triple).length r := by
  have hworld : (start .triple tripleServer).server[0]? = some (some
      (Server.Communicator.fresh 0 (Server.tablesSpec (Server.worldMembers .triple)))) := rfl
  refine (equal_deliver_iff (fun _ _ h => h) reachable_triple hworld running_triple
    not_oneCluster_triple (fun _ => bytePacking_lawful) _
    {scatterInts.kind, gatherPairs.kind} ?_).mpr ?_ _ ?_
  · rintro kind (rfl | rfl)
    · exact legal_scatterInts
    · exact ⟨by decide, fun _ _ => rfl, apart_self rfl _ 1⟩
  · rintro kind (rfl | rfl)
    · exact ⟨fits_scatterInts, fun _ _ _ => Datatype.sendable_byte.mpr
        (show dataMessageSize + (empiInt.offsets 1).length < 2 ^ 31 by decide)⟩
    · exact ⟨⟨fits_scatterInts.1, fills_self rfl 1⟩, fun _ _ _ => Datatype.sendable_byte.mpr
        (show dataMessageSize + (empi2Int.offsets 1).length < 2 ^ 31 by decide)⟩
  · intro call hcall
    rcases List.mem_pair.mp hcall with rfl | rfl
    · exact Or.inl rfl
    · exact Or.inr rfl

end System

end EsalsaMpi
