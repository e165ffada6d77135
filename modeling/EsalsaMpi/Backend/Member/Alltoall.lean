import EsalsaMpi.Backend.Member.Scan
import EsalsaMpi.Backend.Member.Scatter

/-!
# Exchanges of all with all

In `EMPI_Alltoallv` the ranks have their turns one after the other.  In its own turn a
member receives a block from each other member, in rank order, and in the turn of another
one it sends to it.  So the messages are in one order that all members keep to, and the
call comes to its end even if no send completes before its receive has begun.

The own block is copied by `memcpy`, with the count and the extent of the receiving side.
`EMPI_Alltoall` does the same at displacements that it computes with the numbers of C,
which must not exceed an `int`.  All members get their blocks if and only if the own block
of each has the same places on both sides, the displacements can be computed, and the blocks
that go to another cluster fit into messages (`System.alltoalls_deliver_iff`).
-/

namespace EsalsaMpi

open ProcessNetwork Placement

namespace Empi

variable (packing : List Basic → Packing UInt8) (p : Process) (c : Communicator)

/-- The round for rank `i` of the loop in `WA_Alltoallv`. -/
def alltoallWith (sendbuf : Int → UInt8) (sendcounts : Nat → Nat) (sdispls : Nat → Int)
    (sendtype : Datatype) (recvcounts : Nat → Nat) (rdispls : Nat → Int) (recvtype : Datatype)
    (recvbuf : Int → UInt8) (i : Nat) : Caller UInt8 (Int → UInt8) :=
  if i = c.globalRank then
    (List.range c.globalSize).foldlM
      (collectFrom packing p c recvcounts rdispls recvtype alltoallvTag sendbuf
        (sdispls i * sendtype.extent)) recvbuf
  else do
    sendData packing p c sendbuf (sdispls i * sendtype.extent) (sendcounts i) sendtype i
      alltoallvTag
    .done recvbuf

/-- `WA_Alltoallv`: what is in `recvbuf` then. -/
def waAlltoallv (sendbuf : Int → UInt8) (sendcounts : Nat → Nat) (sdispls : Nat → Int)
    (sendtype : Datatype) (recvbuf : Int → UInt8) (recvcounts : Nat → Nat)
    (rdispls : Nat → Int) (recvtype : Datatype) : Caller UInt8 (Int → UInt8) :=
  (List.range c.globalSize).foldlM
    (alltoallWith packing p c sendbuf sendcounts sdispls sendtype recvcounts rdispls recvtype)
    recvbuf

/-- `EMPI_Alltoallv`, where `pmpi` is the call of the library. -/
def alltoallv (pmpi : Caller UInt8 (Int → UInt8)) (sendbuf : Int → UInt8)
    (sendcounts : Nat → Nat) (sdispls : Nat → Int) (sendtype : Datatype)
    (recvbuf : Int → UInt8) (recvcounts : Nat → Nat) (rdispls : Nat → Int)
    (recvtype : Datatype) : Caller UInt8 (Int → UInt8) :=
  if c.commIsLocal then pmpi
  else
    waAlltoallv packing p c sendbuf sendcounts sdispls sendtype recvbuf recvcounts rdispls
      recvtype

/-- The displacements that `EMPI_Alltoall` computes; a product that does not fit in an
`int` is not defined in C. -/
def displacements (count size : Nat) : Option (Nat → Int) :=
  if ∀ i < size, count * i < 2 ^ 31 then some fun i => count * i else none

/-- `EMPI_Alltoall`, where `pmpi` is the call of the library. -/
def alltoall (pmpi : Caller UInt8 (Int → UInt8)) (sendbuf : Int → UInt8) (sendcount : Nat)
    (sendtype : Datatype) (recvbuf : Int → UInt8) (recvcount : Nat) (recvtype : Datatype) :
    Caller UInt8 (Int → UInt8) :=
  if c.commIsLocal then pmpi
  else do
    let senddispls ← .ofOption (displacements sendcount c.globalSize)
    let recvdispls ← .ofOption (displacements recvcount c.globalSize)
    waAlltoallv packing p c sendbuf (fun _ => sendcount) senddispls sendtype recvbuf
      (fun _ => recvcount) recvdispls recvtype

end Empi

/-! ### The calls -/

/-- What the members pass to `EMPI_Alltoallv`, by their ranks, but for the buffers. -/
structure Exchange where
  sendtype : Nat → Datatype
  sendcounts : Nat → Nat → Nat
  sdispls : Nat → Nat → Int
  recvtype : Nat → Datatype
  recvcounts : Nat → Nat → Nat
  rdispls : Nat → Nat → Int

namespace Exchange

/-- The basic types of each block are the same on both sides, and no place is received to
twice. -/
structure Legal (size : Nat) (e : Exchange) : Prop where
  signature : ∀ s < size, ∀ d < size,
    (e.sendtype s).signature (e.sendcounts s d) = (e.recvtype d).signature (e.recvcounts d s)
  apart : ∀ r < size, Apart size (e.recvcounts r) (e.rdispls r) (e.recvtype r)

/-- Where the block of rank `s` for rank `d` starts in the send buffer. -/
def start (e : Exchange) (s d : Nat) : Int := e.sdispls s d * (e.sendtype s).extent

/-- What rank `s` has for rank `d`. -/
def block (e : Exchange) (sendbuf : Nat → Int → UInt8) (s d : Nat) : List UInt8 :=
  load (sendbuf s) ((e.sendtype s).places (e.start s d) (e.sendcounts s d))

/-- **Every rank gets its blocks**: block `s` of the receive buffer of rank `r` is what rank
`s` has for rank `r`. -/
def Got (size : Nat) (e : Exchange) (sendbuf result : Nat → Int → UInt8) : Prop :=
  ∀ r < size, ∀ s < size,
    load (result r) ((e.recvtype r).places (e.rdispls r s * (e.recvtype r).extent)
      (e.recvcounts r s)) = e.block sendbuf s r

/-- The own block of each rank has the same places on both sides, among those that are
copied. -/
def Fits (size : Nat) (e : Exchange) : Prop :=
  ∀ r < size, SamePlaces (e.sendtype r) (e.sendcounts r r) (e.recvtype r) (e.recvcounts r r)
    (e.recvcounts r r * (e.recvtype r).extent)

/-- The blocks that go to another cluster fit into messages. -/
def Sendable (packing : List Basic → Packing UInt8) (members : List Pid) (e : Exchange) : Prop :=
  ∀ s < members.length, ∀ d < members.length, clusterAt members s ≠ clusterAt members d →
    (e.sendtype s).Sendable packing (e.sendcounts s d)

/-- What is in the receive buffers after the call. -/
def result (size : Nat) (e : Exchange) (sendbuf recvbuf : Nat → Int → UInt8) (r : Nat) :
    Int → UInt8 :=
  collected size (e.recvcounts r) (e.rdispls r) (e.recvtype r) (sendbuf r) (e.start r r)
    (fun s => e.block sendbuf s r) r (recvbuf r)

/-- **The copy decides.** -/
theorem got_result_iff {size : Nat} {e : Exchange} (hlegal : e.Legal size) :
    (∀ sendbuf recvbuf, e.Got size sendbuf (e.result size sendbuf recvbuf)) ↔ e.Fits size := by
  have hcopy := fun r (hr : r < size) =>
    load_collected_iff hr (hlegal.apart r hr)
      (fun s => (e.sendtype s).places (e.start s r) (e.sendcounts s r)) rfl fun s hs => by
        rw [Datatype.length_places]
        exact (Datatype.length_offsets_eq (hlegal.signature s hs r hr)).symm
  constructor
  · intro h r hr
    exact (hcopy r hr).mp fun sendbuf recvbuf => h sendbuf (fun _ => recvbuf) r hr
  · intro hfits sendbuf recvbuf r hr
    exact (hcopy r hr).mpr (hfits r hr) sendbuf (recvbuf r)

/-- The transfers: in the turn of each rank from all others to it. -/
def pairs (size : Nat) : List (Nat × Nat) :=
  (List.range size).flatMap fun d => pairsWith (fun s => (s, d)) size d

theorem mem_pairs {size : Nat} {t : Nat × Nat} (ht : t ∈ pairs size) :
    t.1 < size ∧ t.2 < size ∧ t.1 ≠ t.2 := by
  obtain ⟨d, hd, ht⟩ := List.mem_flatMap.mp ht
  obtain ⟨s, hs, hne, rfl⟩ := mem_pairsWith.mp ht
  exact ⟨hs, List.mem_range.mp hd, hne⟩

/-- The messages. -/
def blocks (packing : List Basic → Packing UInt8) (members : List Pid) (n : Nat)
    (e : Exchange) (sendbuf : Nat → Int → UInt8) : List (List (Lane × Packet UInt8)) :=
  transfers (fun s d => packing ((e.sendtype s).signature (e.sendcounts s d))) members n
    alltoallvTag (e.block sendbuf) (pairs members.length)

end Exchange

/-- What the members pass to `EMPI_Alltoallv` or `EMPI_Alltoall`, but for the buffers. -/
inductive AlltoallKind where
  | alltoallv (e : Exchange)
  | alltoall (sendtype : Nat → Datatype) (sendcount : Nat → Nat) (recvtype : Nat → Datatype)
    (recvcount : Nat → Nat)

namespace AlltoallKind

/-- The exchange that `WA_Alltoallv` is called for. -/
def exchange : AlltoallKind → Exchange
  | alltoallv e => e
  | alltoall sendtype sendcount recvtype recvcount =>
    { sendtype := sendtype
      sendcounts := fun r _ => sendcount r
      sdispls := fun r i => sendcount r * i
      recvtype := recvtype
      recvcounts := fun r _ => recvcount r
      rdispls := fun r i => recvcount r * i }

/-- All displacements that `EMPI_Alltoall` computes fit in an `int`. -/
def InRange (size : Nat) : AlltoallKind → Prop
  | alltoallv _ => True
  | alltoall _ sendcount _ recvcount =>
    ∀ r < size, (∀ i < size, sendcount r * i < 2 ^ 31) ∧ ∀ i < size, recvcount r * i < 2 ^ 31

/-- The displacements can be computed, and the own block of each rank has the same places
on both sides. -/
def Fits (size : Nat) (kind : AlltoallKind) : Prop :=
  kind.InRange size ∧ kind.exchange.Fits size

end AlltoallKind

/-- `EMPI_Alltoallv` or `EMPI_Alltoall`, with what is in the buffers of the members. -/
structure AlltoallCall where
  kind : AlltoallKind
  sendbuf : Nat → Int → UInt8
  recvbuf : Nat → Int → UInt8

namespace AlltoallCall

/-- What a member runs, where `pmpi` are the calls of the library. -/
def body (packing : List Basic → Packing UInt8)
    (pmpi : AlltoallCall → Nat → Caller UInt8 (Int → UInt8)) (call : AlltoallCall) (r : Nat)
    (p : Process) (c : Communicator) : Caller UInt8 (Int → UInt8) :=
  match call.kind with
  | .alltoallv e =>
    Empi.alltoallv packing p c (pmpi call r) (call.sendbuf r) (e.sendcounts r) (e.sdispls r)
      (e.sendtype r) (call.recvbuf r) (e.recvcounts r) (e.rdispls r) (e.recvtype r)
  | .alltoall sendtype sendcount recvtype recvcount =>
    Empi.alltoall packing p c (pmpi call r) (call.sendbuf r) (sendcount r) (sendtype r)
      (call.recvbuf r) (recvcount r) (recvtype r)

/-- What is in the receive buffers after the call. -/
def result (size : Nat) (call : AlltoallCall) : Nat → Int → UInt8 :=
  call.kind.exchange.result size call.sendbuf call.recvbuf

/-- Every rank gets its blocks. -/
def Got (size : Nat) (call : AlltoallCall) (result : Nat → Int → UInt8) : Prop :=
  call.kind.exchange.Got size call.sendbuf result

end AlltoallCall

/-! ### What a member does -/

namespace View

variable {packing : List Basic → Packing UInt8} {members : List Pid} {n r : Nat} {p : Process}
  {c : Communicator} {e : Exchange} {sendbuf : Nat → Int → UInt8}

/-- What rank `r` does in the turns of all ranks. -/
theorem partOf_blocks (hr : r < members.length) :
    partOf Lane.source Lane.dest r (e.blocks packing members n sendbuf) =
      (List.range members.length).flatMap fun d =>
        if d = r then
          (List.range members.length).flatMap fun s =>
            if s = r then []
            else [recvOf (fun s d => packing ((e.sendtype s).signature (e.sendcounts s d)))
              members n alltoallvTag (e.block sendbuf) s r]
        else
          [sendOf (fun s d => packing ((e.sendtype s).signature (e.sendcounts s d))) members n
            alltoallvTag (e.block sendbuf) r d] := by
  rw [Exchange.blocks, partOf_transfers, Exchange.pairs, List.flatMap_assoc]
  apply List.flatMap_congr
  intro d _
  rw [← partOf_transfers]
  by_cases hd : d = r
  · rw [if_pos hd, hd, partOf_gather_root]
  · rw [if_neg hd, partOf_gather_other hr (Ne.symm hd)]

/-- **The part of a member** in an exchange over the wide area. -/
theorem follows_waAlltoallv (h : View members n r p c) (hpk : ∀ l, (packing l).Lawful)
    (hlegal : e.Legal members.length) (hsend : e.Sendable packing members)
    (sendbuf recvbuf : Nat → Int → UInt8) :
    Follows (Empi.waAlltoallv packing p c (sendbuf r) (e.sendcounts r) (e.sdispls r)
        (e.sendtype r) (recvbuf r) (e.recvcounts r) (e.rdispls r) (e.recvtype r))
      (partOf Lane.source Lane.dest r (e.blocks packing members n sendbuf))
      (e.result members.length sendbuf recvbuf r) := by
  have hlength : ∀ s < members.length,
      ((e.recvtype r).offsets (e.recvcounts r s)).length = (e.block sendbuf s r).length := by
    intro s hs
    rw [Exchange.block, length_load, Datatype.length_places]
    exact (Datatype.length_offsets_eq (hlegal.signature s hs r h.rank_lt)).symm
  have hresult : e.result members.length sendbuf recvbuf r =
      (List.range members.length).foldl (fun mem i =>
        if i = r then
          collected members.length (e.recvcounts r) (e.rdispls r) (e.recvtype r) (sendbuf r)
            (e.start r r) (fun s => e.block sendbuf s r) r mem
        else mem) (recvbuf r) := (foldl_only _ h.rank_lt _).symm
  rw [Empi.waAlltoallv, h.mirrors.globalSize, partOf_blocks h.rank_lt, hresult]
  refine Follows.foldlM_flatMap ?_ (recvbuf r)
  intro mem d hd
  rw [Empi.alltoallWith, h.globalRank]
  by_cases hown : d = r
  · subst hown
    rw [if_pos rfl, if_pos rfl, if_pos rfl]
    exact h.follows_collectFrom hpk
      (fun s => (e.sendtype s).signature (e.sendcounts s d))
      (fun s hs _ => hlegal.signature s hs d h.rank_lt)
      (fun s hs hne => (Datatype.sendable_congr (hlegal.signature s hs d h.rank_lt)).mp
        (hsend s hs d h.rank_lt hne))
      (fun s hs _ => hlength s hs) mem
  · rw [if_neg hown, if_neg hown, if_neg hown]
    have hlt := List.mem_range.mp hd
    exact (h.follows_sendData hpk (sendbuf r) _ (hsend r h.rank_lt d hlt) alltoallvTag hlt).bind
      (f := fun _ => (.done mem : Caller UInt8 (Int → UInt8))) (.done mem)

theorem polite_waAlltoallv (h : View members n r p c) (sendbuf : Int → UInt8)
    (sendcounts : Nat → Nat) (sdispls : Nat → Int) (sendtype : Datatype) (recvbuf : Int → UInt8)
    (recvcounts : Nat → Nat) (rdispls : Nat → Int) (recvtype : Datatype) :
    Polite members n r (Empi.waAlltoallv packing p c sendbuf sendcounts sdispls sendtype recvbuf
      recvcounts rdispls recvtype) := by
  refine Keeps.foldlM (fun mem i _ => ?_) recvbuf
  unfold Empi.alltoallWith
  split
  · exact h.polite_collectFrom (by decide) mem
  · exact (h.polite_sendData (by decide) _ _ _ _ i).bind fun _ => .done mem

/-- **The part of a member** in such a call, where the displacements can be computed. -/
theorem follows_alltoall (h : View members n r p c) (hremote : ¬ OneCluster members)
    (hpk : ∀ l, (packing l).Lawful) {call : AlltoallCall}
    (hlegal : call.kind.exchange.Legal members.length) (hrange : call.kind.InRange members.length)
    (hsend : call.kind.exchange.Sendable packing members)
    (pmpi : AlltoallCall → Nat → Caller UInt8 (Int → UInt8)) :
    Follows (call.body packing pmpi r p c)
      (partOf Lane.source Lane.dest r
        (call.kind.exchange.blocks packing members n call.sendbuf))
      (call.result members.length r) := by
  have hlocal := h.not_commIsLocal hremote
  have hfollows := h.follows_waAlltoallv hpk hlegal hsend call.sendbuf call.recvbuf
  obtain ⟨kind, sendbuf, recvbuf⟩ := call
  cases kind with
  | alltoallv e =>
      simp only [AlltoallCall.body, Empi.alltoallv, if_neg hlocal]
      exact hfollows
  | alltoall sendtype sendcount recvtype recvcount =>
      obtain ⟨hsend, hrecv⟩ := hrange r h.rank_lt
      simp only [AlltoallCall.body, Empi.alltoall, if_neg hlocal, h.mirrors.globalSize,
        Empi.displacements, if_pos hsend, if_pos hrecv]
      exact hfollows

theorem polite_alltoall (h : View members n r p c) (hremote : ¬ OneCluster members)
    (call : AlltoallCall) (pmpi : AlltoallCall → Nat → Caller UInt8 (Int → UInt8)) :
    Polite members n r (call.body packing pmpi r p c) := by
  have hlocal := h.not_commIsLocal hremote
  obtain ⟨kind, sendbuf, recvbuf⟩ := call
  cases kind with
  | alltoallv e =>
      simp only [AlltoallCall.body, Empi.alltoallv, if_neg hlocal]
      exact h.polite_waAlltoallv _ _ _ _ _ _ _ _
  | alltoall sendtype sendcount recvtype recvcount =>
      simp only [AlltoallCall.body, Empi.alltoall, if_neg hlocal]
      exact (Keeps.ofOption _).bind fun _ => (Keeps.ofOption _).bind fun _ =>
        h.polite_waAlltoallv _ _ _ _ _ _ _ _

/-- **A member does not get through** where a block for another cluster does not fit into a
message. -/
theorem doomed_waAlltoallv (h : View members n r p c) (sendbuf : Int → UInt8)
    {sendcounts : Nat → Nat} (sdispls : Nat → Int) {sendtype : Datatype} (recvbuf : Int → UInt8)
    (recvcounts : Nat → Nat) (rdispls : Nat → Int) (recvtype : Datatype) {d : Nat}
    (hd : d < members.length) (hcluster : clusterAt members r ≠ clusterAt members d)
    (hsend : ¬ sendtype.Sendable packing (sendcounts d)) :
    Doomed (Empi.waAlltoallv packing p c sendbuf sendcounts sdispls sendtype recvbuf recvcounts
      rdispls recvtype) := by
  have hown : d ≠ c.globalRank := by
    rw [h.globalRank]
    rintro rfl
    exact hcluster rfl
  refine Doomed.foldlM (List.mem_range.mpr (h.mirrors.globalSize ▸ hd)) (fun mem => ?_) recvbuf
  rw [Empi.alltoallWith, if_neg hown, h.sendData_eq_fail hsend hcluster.symm _ _ _ hd]
  exact .fail

/-- The same for such a call. -/
theorem doomed_alltoall_send (h : View members n r p c) (hremote : ¬ OneCluster members)
    {call : AlltoallCall} {d : Nat} (hd : d < members.length)
    (hcluster : clusterAt members r ≠ clusterAt members d)
    (hsend : ¬ (call.kind.exchange.sendtype r).Sendable packing
      (call.kind.exchange.sendcounts r d))
    (pmpi : AlltoallCall → Nat → Caller UInt8 (Int → UInt8)) :
    Doomed (call.body packing pmpi r p c) := by
  have hlocal := h.not_commIsLocal hremote
  obtain ⟨kind, sendbuf, recvbuf⟩ := call
  cases kind with
  | alltoallv e =>
      simp only [AlltoallCall.body, Empi.alltoallv, if_neg hlocal]
      exact h.doomed_waAlltoallv _ _ _ _ _ _ hd hcluster hsend
  | alltoall sendtype sendcount recvtype recvcount =>
      simp only [AlltoallCall.body, Empi.alltoall, if_neg hlocal]
      exact Doomed.of_bind _ fun _ => Doomed.of_bind _ fun _ =>
        h.doomed_waAlltoallv _ _ _ _ _ _ hd hcluster hsend

/-- **A member does not get through** such a call where it cannot compute its
displacements. -/
theorem doomed_alltoall (h : View members n r p c) (hremote : ¬ OneCluster members)
    {sendtype : Nat → Datatype} {sendcount : Nat → Nat} {recvtype : Nat → Datatype}
    {recvcount : Nat → Nat} {recvbuf : Nat → Int → UInt8}
    (hrange : ¬ ((∀ i < members.length, sendcount r * i < 2 ^ 31) ∧
      ∀ i < members.length, recvcount r * i < 2 ^ 31))
    (pmpi : AlltoallCall → Nat → Caller UInt8 (Int → UInt8)) :
    Doomed (AlltoallCall.body packing pmpi
      ⟨.alltoall sendtype sendcount recvtype recvcount, sendbuf, recvbuf⟩ r p c) := by
  have hlocal := h.not_commIsLocal hremote
  simp only [AlltoallCall.body, Empi.alltoall, if_neg hlocal, h.mirrors.globalSize]
  by_cases hsend : ∀ i < members.length, sendcount r * i < 2 ^ 31
  · refine Doomed.of_bind _ fun _ => Doomed.bind ?_ _
    rw [Empi.displacements, if_neg fun hrecv => hrange ⟨hsend, hrecv⟩]
    exact .fail
  · refine Doomed.bind ?_ _
    rw [Empi.displacements, if_neg hsend]
    exact .fail

end View

namespace System

variable {cfg : Server.Config} {order : Server.HashOrder} {s : System} {n : Nat}
  {sc : Server.Communicator} {packing : List Basic → Packing UInt8}
  {ready : Session UInt8 (Int → UInt8) → Lane → Prop}

/-- An exchange over the wide area is performed, with what the own copies make of their
blocks. -/
theorem performed_alltoall (hreach : System.Reachable cfg order s)
    (hsc : s.server[n]? = some (some sc))
    (hrunning : ∀ pid ∈ sc.tables.members, (s.processes pid).isSome)
    (hremote : ¬ OneCluster sc.tables.members) (hpk : ∀ l, (packing l).Lawful)
    (pmpi : AlltoallCall → Nat → Caller UInt8 (Int → UInt8)) {call : AlltoallCall}
    (hlegal : call.kind.exchange.Legal sc.tables.members.length)
    (hrange : call.kind.InRange sc.tables.members.length)
    (hsend : call.kind.exchange.Sendable packing sc.tables.members) :
    Session.Performed sc.tables.members n (fun b => ∃ t, b = [t] ∧ t.1.source ≠ t.1.dest)
      (s.caller n sc.tables.members (call.body packing pmpi))
      (call.result sc.tables.members.length) := by
  refine performed hreach hsc hrunning
    (call.kind.exchange.blocks packing sc.tables.members n call.sendbuf) ?_ ?_ ?_ ?_
  · intro r p c hview
    exact hview.polite_alltoall hremote call pmpi
  · intro r p c hview
    exact hview.follows_alltoall hremote hpk hlegal hrange hsend pmpi
  · apply inside_transfers
    intro t ht
    obtain ⟨hs, hd, _⟩ := Exchange.mem_pairs ht
    exact ⟨hs, hd⟩
  · apply single_transfers
    intro t ht
    exact (Exchange.mem_pairs ht).2.2

/-- A call that has come to its end at all members was in range. -/
theorem inRange_of_delivers (hreach : System.Reachable cfg order s)
    (hsc : s.server[n]? = some (some sc))
    (hrunning : ∀ pid ∈ sc.tables.members, (s.processes pid).isSome)
    (hremote : ¬ OneCluster sc.tables.members)
    {pmpi : AlltoallCall → Nat → Caller UInt8 (Int → UInt8)} {call : AlltoallCall}
    {results : Nat → List (Int → UInt8)}
    (h : Session.Delivers sc.tables.members n ready
      (s.session n sc.tables.members ([call].map (AlltoallCall.body packing pmpi))) results) :
    call.kind.InRange sc.tables.members.length := by
  obtain ⟨kind, sendbuf, recvbuf⟩ := call
  cases kind with
  | alltoallv e => trivial
  | alltoall sendtype sendcount recvtype recvcount =>
      intro r hr
      by_contra hrange
      refine not_delivers hreach hsc hrunning ?_ (List.mem_singleton_self _) hr ?_ ready results h
      · intro call _ r p c hview
        exact hview.polite_alltoall hremote call pmpi
      · intro p c hview
        exact hview.doomed_alltoall hremote hrange pmpi

/-- The blocks that it sent to other clusters fitted into messages. -/
theorem sendable_of_delivers (hreach : System.Reachable cfg order s)
    (hsc : s.server[n]? = some (some sc))
    (hrunning : ∀ pid ∈ sc.tables.members, (s.processes pid).isSome)
    (hremote : ¬ OneCluster sc.tables.members)
    {pmpi : AlltoallCall → Nat → Caller UInt8 (Int → UInt8)} {call : AlltoallCall}
    {results : Nat → List (Int → UInt8)}
    (h : Session.Delivers sc.tables.members n ready
      (s.session n sc.tables.members ([call].map (AlltoallCall.body packing pmpi))) results) :
    call.kind.exchange.Sendable packing sc.tables.members := by
  intro r hr d hd hcluster
  by_contra hsend
  refine not_delivers hreach hsc hrunning ?_ (List.mem_singleton_self _) hr ?_ ready results h
  · intro call _ r p c hview
    exact hview.polite_alltoall hremote call pmpi
  · intro p c hview
    exact hview.doomed_alltoall_send hremote hd hcluster hsend pmpi

/-- **Exchanges of all with all.**  On a communicator of a run that is not in one cluster,
all rows of exchanges of some kinds come to their end, even where sends wait for their
receives, and every rank gets its blocks, if and only if for each kind the displacements
can be computed, the own block of each rank has the same places on both sides, and what goes
to other clusters fits into messages. -/
theorem alltoalls_deliver_iff (hprompt : Session.Prompt ready)
    (hreach : System.Reachable cfg order s) (hsc : s.server[n]? = some (some sc))
    (hrunning : ∀ pid ∈ sc.tables.members, (s.processes pid).isSome)
    (hremote : ¬ OneCluster sc.tables.members) (hpk : ∀ l, (packing l).Lawful)
    (pmpi : AlltoallCall → Nat → Caller UInt8 (Int → UInt8)) (kinds : Set AlltoallKind)
    (hlegal : ∀ kind ∈ kinds, kind.exchange.Legal sc.tables.members.length) :
    (∀ calls : List AlltoallCall, (∀ call ∈ calls, call.kind ∈ kinds) →
        ∃ result : AlltoallCall → Nat → Int → UInt8,
          (∀ call ∈ calls, call.Got sc.tables.members.length (result call)) ∧
            Session.Delivers sc.tables.members n ready
              (s.session n sc.tables.members (calls.map (AlltoallCall.body packing pmpi)))
              fun r => calls.map fun call => result call r) ↔
      ∀ kind ∈ kinds, kind.Fits sc.tables.members.length ∧
        kind.exchange.Sendable packing sc.tables.members := by
  constructor
  · intro hall kind hkind
    have hone : ∀ call : AlltoallCall, call.kind = kind → ∃ result : Nat → Int → UInt8,
        call.Got sc.tables.members.length result ∧
          Session.Delivers sc.tables.members n ready
            (s.session n sc.tables.members ([call].map (AlltoallCall.body packing pmpi)))
            fun r => [result r] := by
      intro call hcall
      obtain ⟨result, hgot, hdelivers⟩ := hall [call] fun call' hcall' => by
        rw [List.mem_singleton.mp hcall', hcall]
        exact hkind
      exact ⟨result call, hgot call (List.mem_singleton_self call), hdelivers⟩
    obtain ⟨_, _, hends⟩ := hone ⟨kind, fun _ _ => 0, fun _ _ => 0⟩ rfl
    have hrange : kind.InRange sc.tables.members.length :=
      inRange_of_delivers hreach hsc hrunning hremote hends
    have hsend : kind.exchange.Sendable packing sc.tables.members :=
      sendable_of_delivers hreach hsc hrunning hremote hends
    refine ⟨⟨hrange, (Exchange.got_result_iff (hlegal kind hkind)).mp
      fun sendbuf recvbuf => ?_⟩, hsend⟩
    let call : AlltoallCall := ⟨kind, sendbuf, recvbuf⟩
    obtain ⟨result, hgot, hdelivers⟩ := hone call rfl
    have hdone : Session.Delivers sc.tables.members n ready
        (s.session n sc.tables.members ([call].map (AlltoallCall.body packing pmpi)))
        fun r => [call].map fun call => call.result sc.tables.members.length r := by
      refine delivers_prompt hprompt hreach hsc hrunning fun call' hcall' => ?_
      rw [List.mem_singleton.mp hcall']
      exact performed_alltoall hreach hsc hrunning hremote hpk pmpi (hlegal kind hkind) hrange
        hsend
    intro r hr i hi
    have hsame := List.head_eq_of_cons_eq (hdone.unique hdelivers hr rfl)
    have hblock := hgot r hr i hi
    rw [← hsame] at hblock
    exact hblock
  · intro hfits calls hcalls
    refine ⟨fun call => call.result sc.tables.members.length, fun call hcall => ?_, ?_⟩
    · have hkind := hcalls call hcall
      exact (Exchange.got_result_iff (hlegal _ hkind)).mpr (hfits _ hkind).1.2 _ _
    · refine delivers_prompt hprompt hreach hsc hrunning fun call hcall => ?_
      have hkind := hcalls call hcall
      obtain ⟨⟨hrange, _⟩, hsend⟩ := hfits _ hkind
      exact performed_alltoall hreach hsc hrunning hremote hpk pmpi (hlegal _ hkind) hrange hsend

/-! ### Two calls -/

/-- Two `EMPI_INT` with a gap of one between them. -/
def spacedInts : Datatype := ⟨43, [(⟨3, 4⟩, 0), (⟨3, 4⟩, 8)], 12⟩

/-- Two `EMPI_INT` for each process, which are taken from every other place. -/
def everyOther : AlltoallCall :=
  ⟨.alltoall (fun _ => spacedInts) (fun _ => 1) (fun _ => empiInt) (fun _ => 2),
    fun _ a => UInt8.ofNat (a.toNat + 1), fun _ _ => 0⟩

/-- Nobody gets the second one of its own two elements. -/
theorem not_alltoalls_deliver_everyOther :
    everyOther.kind.exchange.Legal (Server.worldMembers .pair).length ∧
      ¬ ∃ result : AlltoallCall → Nat → Int → UInt8,
        everyOther.Got (Server.worldMembers .pair).length (result everyOther) ∧
          Session.Delivers (Server.worldMembers .pair) 0 Session.Awaited
            ((start .pair pairServer).session 0 (Server.worldMembers .pair)
              ([everyOther].map (AlltoallCall.body (fun _ => bytePacking) fun _ _ => .fail)))
            fun r => [result everyOther r] := by
  have hworld : (start .pair pairServer).server[0]? = some (some
      (Server.Communicator.fresh 0 (Server.tablesSpec (Server.worldMembers .pair)))) := rfl
  have hlegal : everyOther.kind.exchange.Legal (Server.worldMembers .pair).length :=
    { signature := fun _ _ _ _ => show spacedInts.signature 1 = empiInt.signature 2 by decide
      apart := fun _ _ => apart_self rfl _ 2 }
  refine ⟨hlegal, fun ⟨result, hgot, hdelivers⟩ => ?_⟩
  have hdone : Session.Delivers (Server.worldMembers .pair) 0 Session.Awaited
      ((start .pair pairServer).session 0 (Server.worldMembers .pair)
        ([everyOther].map (AlltoallCall.body (fun _ => bytePacking) fun _ _ => .fail)))
      fun r => [everyOther].map fun call =>
        call.result (Server.worldMembers .pair).length r := by
    refine delivers_prompt (fun _ _ h => h) reachable_pair hworld running_pair ?_
    intro call hcall
    rw [List.mem_singleton.mp hcall]
    exact performed_alltoall reachable_pair hworld running_pair not_oneCluster_pair
      (fun _ => bytePacking_lawful) _ hlegal
      (fun _ _ => ⟨show ∀ i < 2, 1 * i < 2 ^ 31 by decide, show ∀ i < 2, 2 * i < 2 ^ 31 by decide⟩)
      fun _ _ _ _ _ => Datatype.sendable_byte.mpr (show dataMessageSize +
        (spacedInts.offsets 1).length < 2 ^ 31 by decide)
  have hsame := List.head_eq_of_cons_eq (hdone.unique hdelivers (r := 0) (by decide) rfl)
  have hblock := hgot 0 (by decide) 0 (by decide)
  rw [← hsame] at hblock
  revert hblock
  decide

/-- One `EMPI_INT` for each process. -/
def oneInt : AlltoallCall :=
  ⟨.alltoall (fun _ => empiInt) (fun _ => 1) (fun _ => empiInt) (fun _ => 1),
    fun r a => UInt8.ofNat (a.toNat + 10 * r), fun _ _ => 0⟩

/-- Three processes do this twice, where each send waits for its receive. -/
theorem alltoalls_deliver_triple :
    ∃ result : AlltoallCall → Nat → Int → UInt8,
      (∀ call ∈ [oneInt, oneInt], call.Got (Server.worldMembers .triple).length (result call)) ∧
        Session.Delivers (Server.worldMembers .triple) 0 Session.Awaited
          ((start .triple tripleServer).session 0 (Server.worldMembers .triple)
            ([oneInt, oneInt].map
              (AlltoallCall.body (fun _ => bytePacking) fun _ _ => .fail)))
          fun r => [oneInt, oneInt].map fun call => result call r := by
  have hworld : (start .triple tripleServer).server[0]? = some (some
      (Server.Communicator.fresh 0 (Server.tablesSpec (Server.worldMembers .triple)))) := rfl
  refine (alltoalls_deliver_iff (fun _ _ h => h) reachable_triple hworld running_triple
    not_oneCluster_triple (fun _ => bytePacking_lawful) _ {oneInt.kind} ?_).mpr ?_ _ ?_
  · rintro kind rfl
    exact { signature := fun _ _ _ _ => rfl, apart := fun _ _ => apart_self rfl _ 1 }
  · rintro kind rfl
    have hdispls : ∀ i < 3, 1 * i < 2 ^ 31 := by decide
    refine ⟨⟨fun _ _ => ⟨hdispls, hdispls⟩, fun _ _ => ?_⟩, fun _ _ _ _ _ => ?_⟩
    · exact ⟨rfl, fun o ho => ((fills_self rfl 1).2 o).mp ho⟩
    · exact Datatype.sendable_byte.mpr
        (show dataMessageSize + (empiInt.offsets 1).length < 2 ^ 31 by decide)
  · intro call hcall
    have hone : call = oneInt := by simpa using hcall
    rw [hone]
    rfl

end System

end EsalsaMpi
