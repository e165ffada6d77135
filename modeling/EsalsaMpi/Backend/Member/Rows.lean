import EsalsaMpi.Backend.Member.Allgather
import EsalsaMpi.Backend.Member.Allreduce
import EsalsaMpi.Backend.Member.EqualBlocks

/-!
# Rows of all collective calls

A program calls the collective operations in any order, with elements of different datatypes.  All
messages over the library are bytes then (`overBytes`), and calls of different operations share
tags: the broadcasts, the barriers, the reductions to all and the exchange of `EMPI_Allgatherv` all
use the one of `messaging_bcast`, and the members are in different calls at the same time.

* `System.rows_deliver` — still every call has the results that it has in a row of its own.
* `System.row_settles` — a row of any calls whatever, also of some that have wrong results or do
  not end, has no races: if in one run all members return from all calls, every run can be
  completed, with the same results.
-/

namespace EsalsaMpi

open ProcessNetwork

/-! ### Elements in memory -/

/-- How elements of a datatype are stored in memory. -/
structure Representation (α : Type) where
  store : List α → List UInt8
  load : List UInt8 → Option (List α)
  load_store : ∀ xs, load (store xs) = some xs

namespace Representation

/-- Bytes are stored as they are. -/
def bytes : Representation UInt8 := ⟨id, some, fun _ => rfl⟩

variable {α : Type} (rep : Representation α)

/-- A message with the elements stored as bytes. -/
def packet : Packet α → Packet UInt8
  | .elements xs => .elements (rep.store xs)
  | .wideArea m => .wideArea m

/-- The elements of a message. -/
def unpacket : Packet UInt8 → Option (Packet α)
  | .elements xs => (rep.load xs).map .elements
  | .wideArea m => some (.wideArea m)

theorem unpacket_packet (m : Packet α) : rep.unpacket (rep.packet m) = some m := by
  cases m with
  | elements xs => rw [packet, unpacket, rep.load_store, Option.map_some]
  | wideArea m => rfl

end Representation

/-- A call with elements that are stored as bytes; `note` is how its result is noted. -/
def overBytes {α β γ : Type} (rep : Representation α) (note : β → γ) (x : Caller α β) :
    Caller UInt8 γ :=
  x.recode id rep.packet rep.unpacket >>= fun b => .done (note b)

section OverBytes

variable {α β γ : Type} {rep : Representation α} {note : β → γ} {members : List Pid} {n r : Nat}

/-- The lanes are the same. -/
theorem polite_overBytes {x : Caller α β} (h : Polite members n r x) :
    Polite members n r (overBytes rep note x) := by
  refine Keeps.bind (Keeps.recode (h.imp (fun lane m hmay => ?_) fun _ hmay => hmay))
    fun b => .done _
  obtain ⟨hsource, hmay⟩ := hmay
  refine ⟨hsource, ?_⟩
  rw [id_eq]
  cases hwide : lane.carrier.wideTag with
  | none =>
      rw [hwide] at hmay
      cases m with
      | elements xs => trivial
      | wideArea m => exact hmay
  | some tag =>
      rw [hwide] at hmay
      cases m with
      | elements xs => exact hmay
      | wideArea m => exact hmay

/-- **A call that is performed** is so with bytes. -/
theorem Session.Performed.overBytes {Q : List (Lane × Packet α) → Prop} {run : Nat → Caller α β}
    {result : Nat → β} (h : Session.Performed members n Q run result) (rep : Representation α)
    (note : β → γ) :
    Session.Performed members n (fun _ => True) (fun r => EsalsaMpi.overBytes rep note (run r))
      fun r => note (result r) where
  polite r := polite_overBytes (h.polite r)
  blocks := by
    obtain ⟨blocks, _, hperforms⟩ := h.blocks
    refine ⟨blocks.map (List.map (recodeMessage id rep.packet)), fun _ _ => trivial,
      fun r hr => ?_, fun b hb t ht => ?_⟩
    · rw [partOf_recode (fun _ => rfl) fun _ => rfl]
      have hfollows : Follows ((run r).recode id rep.packet rep.unpacket) _ (result r) :=
        (hperforms.follows r hr).recode rep.unpacket_packet
      have hnote := hfollows.bind (f := fun b => (.done (note b) : Caller UInt8 γ)) (.done _)
      rwa [List.append_nil] at hnote
    · obtain ⟨b', hb', rfl⟩ := List.mem_map.mp hb
      obtain ⟨t', ht', rfl⟩ := List.mem_map.mp ht
      exact hperforms.inside b' hb' t' ht'
  outside r hr := by
    rw [h.outside r hr]
    rfl

theorem System.caller_overBytes (s : System) (body : Nat → Process → Communicator → Caller α β) :
    s.caller n members (fun r p c => overBytes rep note (body r p c)) =
      fun r => overBytes rep note (s.caller n members body r) := by
  funext r
  simp only [System.caller]
  cases members[r]? with
  | none => rfl
  | some pid =>
      dsimp only
      cases s.processes pid with
      | none => rfl
      | some p =>
          dsimp only
          cases p.comms n with
          | none => rfl
          | some c => rfl

/-- What the members of a run perform, they perform with bytes. -/
theorem System.performed_overBytes {s : System} {Q : List (Lane × Packet α) → Prop}
    {result : Nat → β} {body : Nat → Process → Communicator → Caller α β}
    (h : Session.Performed members n Q (s.caller n members body) result) :
    Session.Performed members n (fun _ => True)
      (s.caller n members fun r p c => overBytes rep note (body r p c))
      fun r => note (result r) := by
  rw [System.caller_overBytes]
  exact h.overBytes rep note

end OverBytes

/-! ### The calls -/

/-- The types of elements in a program: how elements are stored, what the library makes of them,
and the datatypes with such elements, by their handles; how bytes are packed, by the basic types of
their datatype; and what the library does in calls in one cluster. -/
structure Environment (τ : Type) where
  Element : τ → Type
  stored : ∀ t, Representation (Element t)
  lib : ∀ t, Library (Element t)
  types : ∀ t, DatatypeTable (Element t)
  packing : List Basic → Packing UInt8
  packing_lawful : ∀ l, (packing l).Lawful
  pmpiAllgather : ∀ t, AllgatherCall (Element t) → Nat → Caller (Element t) (Memory (Element t))
  pmpiRooted : RootedCall → Nat → Caller UInt8 (Int → UInt8)
  pmpiEqual : EqualCall → Nat → Caller UInt8 (Int → UInt8)
  pmpiAlltoall : AlltoallCall → Nat → Caller UInt8 (Int → UInt8)

variable {τ : Type}

/-- A collective operation that all members call, with what they pass to it. -/
inductive CollectiveCall (E : Environment τ) where
  | bcast (t : τ) (call : BcastCall (E.Element t))
  | reduce (t : τ) (call : ReduceCall (E.Element t))
  | allreduce (t : τ) (call : AllreduceCall (E.Element t))
  | scan (t : τ) (call : ScanCall (E.Element t))
  | allgather (t : τ) (call : AllgatherCall (E.Element t))
  | rooted (call : RootedCall)
  | equal (call : EqualCall)
  | alltoall (call : AlltoallCall)

/-- What is in a buffer after a call. -/
inductive Held (E : Environment τ) where
  | elements (t : τ) (xs : List (E.Element t))
  | blocks (t : τ) (mem : Memory (E.Element t))
  | bytes (mem : Int → UInt8)

namespace CollectiveCall

variable {E : Environment τ}

/-- What a member runs. -/
def body (clusterCount : Nat) :
    CollectiveCall E → Nat → Process → Communicator → Caller UInt8 (Held E)
  | bcast t call, r, p, c => overBytes (E.stored t) (.elements t) (call.body clusterCount r p c)
  | reduce t call, r, p, c => overBytes (E.stored t) (.elements t) (call.body (E.lib t) r p c)
  | allreduce t call, r, p, c =>
    overBytes (E.stored t) (.elements t)
      (call.body clusterCount (E.lib t) (E.types t) r p c)
  | scan t call, r, p, c => overBytes (E.stored t) (.elements t) (call.body (E.lib t) r p c)
  | allgather t call, r, p, c =>
    overBytes (E.stored t) (.blocks t) (call.body clusterCount (E.pmpiAllgather t) r p c)
  | rooted call, r, p, c => overBytes .bytes .bytes (call.body E.packing E.pmpiRooted r p c)
  | equal call, r, p, c => overBytes .bytes .bytes (call.body E.packing E.pmpiEqual r p c)
  | alltoall call, r, p, c => overBytes .bytes .bytes (call.body E.packing E.pmpiAlltoall r p c)

/-- The call is as MPI asks, and the library does its part. -/
def Legal (members : List Pid) : CollectiveCall E → Prop
  | bcast _ call => call.Legal members.length
  | reduce t call => call.Legal (E.lib t) members.length
  | allreduce t call => call.Legal (E.lib t) (E.types t) members.length
  | scan t call => call.kind.Legal (E.lib t) ∧ call.Fits members.length
  | allgather _ call => call.kind.Legal members ∧ call.Sends members.length
  | rooted call => call.kind.Legal members.length
  | equal call => call.kind.rooted.Legal members.length
  | alltoall call => call.kind.exchange.Legal members.length

/-- The call has the right results in rows of such calls. -/
def Fits (clusterCount : Nat) (members : List Pid) : CollectiveCall E → Prop
  | bcast _ call => call.Sendable
  | reduce t call => call.Works (E.lib t) members
  | allreduce t call => call.Ends (E.types t) ∧ call.Agrees (E.lib t) members
  | scan _ call => call.kind.InOrder members
  | allgather _ call => call.kind.Fits clusterCount members
  | rooted call => call.kind.Fits ∧ call.kind.Sendable E.packing members
  | equal call => call.kind.Fits members.length ∧ call.kind.rooted.Sendable E.packing members
  | alltoall call => call.kind.Fits members.length ∧ call.kind.exchange.Sendable E.packing members

/-- **Every member has the right result** of the call. -/
def Got (size : Nat) : CollectiveCall E → (Nat → Held E) → Prop
  | bcast t call, held => ∀ r < size, held r = .elements t call.delivered
  | reduce t call, held => ∀ r < size, held r = .elements t (call.reduced size r)
  | allreduce t call, held => ∀ r < size, held r = .elements t (call.reduced size)
  | scan t call, held => ∀ r < size, held r = .elements t (call.expected r)
  | allgather t call, held =>
    ∃ result, call.Got size result ∧ ∀ r < size, held r = .blocks t (result r)
  | rooted call, held => ∀ r < size, held r = .bytes (call.expected size r)
  | equal call, held => ∀ r < size, held r = .bytes (call.rooted.expected size r)
  | alltoall call, held => ∃ result, call.Got size result ∧ ∀ r < size, held r = .bytes (result r)

end CollectiveCall

/-- **A member keeps to its lanes** in all calls, whatever it passes to them. -/
theorem View.polite_collective {E : Environment τ} {members : List Pid} {n r count : Nat}
    {p : Process} {c : Communicator} (h : View members n r p c)
    (hremote : ¬ OneCluster members) (call : CollectiveCall E) :
    Polite members n r (call.body count r p c) := by
  cases call with
  | bcast t call => exact polite_overBytes (h.polite_bcastCall call)
  | reduce t call => exact polite_overBytes (h.polite_reduce _ _ _ _)
  | allreduce t call => exact polite_overBytes (h.polite_allreduce _ _ _ _)
  | scan t call => exact polite_overBytes (h.polite_scan _ _)
  | allgather t call => exact polite_overBytes (h.polite_allgather hremote call _)
  | rooted call => exact polite_overBytes (h.polite_rooted hremote call _)
  | equal call => exact polite_overBytes (h.polite_equal hremote call _)
  | alltoall call => exact polite_overBytes (h.polite_alltoall hremote call _)

/-! ### One run is enough -/

/-- **Rows have no races.**  If in one run all members return from all calls, every run can be
completed, with the same results. -/
theorem Session.delivers_of_run {α β κ : Type} {members : List Pid} {n : Nat}
    {ready : Session α β → Lane → Prop} {run : κ → Nat → Caller α β} {calls : List κ}
    {known : Nat → Nat → Bool} {t : Session α β} {result : Nat → List β}
    (hnodup : members.Nodup) (hknown : ∀ r < members.length, known r n = true)
    (hpolite : ∀ k ∈ calls, ∀ r, Polite members n r (run k r))
    (houtside : ∀ k ∈ calls, ∀ r, members.length ≤ r → run k r = .fail)
    (hrun : Relation.ReflTransGen (Step members n ready) (start (calls.map run) known) t)
    (hdone : ∀ r < members.length, t.member r = ⟨[], none, result r⟩) :
    Delivers members n Eager (start (calls.map run) known) result := by
  have hinv := inv_start hpolite hknown
  have hsteps := view_run hnodup hinv hrun
  rw [view_start] at hsteps
  have hfinished : ∀ r < members.length, (t.view n).procs r = .done (result r) := by
    intro r hr
    show (t.member r).left = _
    rw [hdone r hr]
    rfl
  have hend : ∀ u, ¬ ProcessNetwork.Step (t.view n) u := by
    refine ended fun r => ?_
    by_cases hr : r < members.length
    · rw [hfinished r hr]
      trivial
    · have hstopped := stopped_start houtside (Nat.le_of_not_lt hr)
      rw [stopped_of_steps hsteps hstopped]
      exact hstopped
  refine delivers_of_end (r := ProcessNetwork.Step) hnodup
    (fun h hstep => exists_run_of_step hnodup h hstep) hinv hfinished ?_
  rw [view_start]
  exact fun v hv => completes_of_run (owned_start hpolite) hsteps hend hv

namespace System

variable {cfg : Server.Config} {order : Server.HashOrder} {s : System} {n : Nat}
  {sc : Server.Communicator} {E : Environment τ}

section Performed

variable (hreach : System.Reachable cfg order s) (hsc : s.server[n]? = some (some sc))
  (hrunning : ∀ pid ∈ sc.tables.members, (s.processes pid).isSome)
include hreach hsc hrunning

/-- **Every call is performed**, with the right results. -/
theorem performed_collective (hspans : SpansInOrder sc.tables.members cfg.numberOfClusters)
    {call : CollectiveCall E} (hlegal : call.Legal sc.tables.members)
    (hfits : call.Fits cfg.numberOfClusters sc.tables.members) :
    ∃ held, call.Got sc.tables.members.length held ∧
      Session.Performed sc.tables.members n (fun _ => True)
        (s.caller n sc.tables.members (call.body cfg.numberOfClusters)) held := by
  have hremote := not_oneCluster_of_spans hspans cfg.one_lt_clusters
  cases call with
  | bcast t call =>
      exact ⟨_, fun r _ => rfl,
        performed_overBytes (performed_bcast hreach hsc hrunning hspans hlegal hfits)⟩
  | reduce t call =>
      exact ⟨_, fun r _ => rfl,
        performed_overBytes (performed_reduced hreach hsc hrunning hlegal hfits)⟩
  | allreduce t call =>
      exact ⟨_, fun r _ => rfl, performed_overBytes
        (performed_reducedToAll hreach hsc hrunning hspans hlegal hfits.1 hfits.2)⟩
  | scan t call =>
      exact ⟨_, fun r _ => rfl, performed_overBytes
        (performed_scan_inOrder hreach hsc hrunning hlegal.1 hlegal.2 hfits)⟩
  | allgather t call =>
      obtain ⟨hordered, hcounts⟩ := hfits
      exact ⟨_, ⟨_, got_allgather hspans hlegal.1 hlegal.2 hordered, fun r _ => rfl⟩,
        performed_overBytes (performed_allgather hreach hsc hrunning hspans _ hlegal.1 hlegal.2
          ((countsFit_iff hspans hordered).mp hcounts))⟩
  | rooted call =>
      have hperformed := performed_rooted hreach hsc hrunning hremote E.packing_lawful
        E.pmpiRooted hlegal hfits.2
      exact ⟨_, fun r _ => rfl, performed_overBytes (hperformed.congr
        ((RootedKind.result_eq_iff hlegal).mpr hfits.1 _ _))⟩
  | equal call =>
      obtain ⟨⟨hrange, hown⟩, hsend⟩ := hfits
      have hperformed := performed_rooted hreach hsc hrunning hremote E.packing_lawful
        E.pmpiRooted (show call.rooted.kind.Legal _ from hlegal) hsend
      rw [← caller_equal hreach hsc hrunning hremote E.pmpiEqual _ hrange] at hperformed
      exact ⟨_, fun r _ => rfl, performed_overBytes (hperformed.congr
        ((RootedKind.result_eq_iff hlegal).mpr hown _ _))⟩
  | alltoall call =>
      obtain ⟨⟨hrange, hown⟩, hsend⟩ := hfits
      exact ⟨_, ⟨_, (Exchange.got_result_iff hlegal).mpr hown _ _, fun r _ => rfl⟩,
        performed_overBytes (performed_alltoall hreach hsc hrunning hremote E.packing_lawful
          E.pmpiAlltoall hlegal hrange hsend)⟩

end Performed

/-- **Rows of all collective calls.**  On a communicator of a run that spans all clusters in
order, for every row of broadcasts, barriers, reductions, scans, gathers, scatters and exchanges,
with elements of any datatypes: where each call has the right results in rows of its own, every
run of the whole row gives all members the right results of all calls, and can be completed. -/
theorem rows_deliver (hreach : System.Reachable cfg order s)
    (hsc : s.server[n]? = some (some sc))
    (hrunning : ∀ pid ∈ sc.tables.members, (s.processes pid).isSome)
    (hspans : SpansInOrder sc.tables.members cfg.numberOfClusters)
    {calls : List (CollectiveCall E)} (hlegal : ∀ call ∈ calls, call.Legal sc.tables.members)
    (hfits : ∀ call ∈ calls, call.Fits cfg.numberOfClusters sc.tables.members) :
    ∃ held : CollectiveCall E → Nat → Held E,
      (∀ call ∈ calls, call.Got sc.tables.members.length (held call)) ∧
        Session.Delivers sc.tables.members n Session.Eager
          (s.session n sc.tables.members (calls.map (CollectiveCall.body cfg.numberOfClusters)))
          fun r => calls.map fun call => held call r := by
  have hcall : ∀ call : CollectiveCall E, ∃ held, call ∈ calls →
      call.Got sc.tables.members.length held ∧
        Session.Performed sc.tables.members n (fun _ => True)
          (s.caller n sc.tables.members (call.body cfg.numberOfClusters)) held := by
    intro call
    by_cases hmem : call ∈ calls
    · obtain ⟨held, hheld⟩ := performed_collective hreach hsc hrunning hspans
        (hlegal call hmem) (hfits call hmem)
      exact ⟨held, fun _ => hheld⟩
    · exact ⟨fun _ => .bytes fun _ => 0, fun h => absurd h hmem⟩
  choose held hheld using hcall
  exact ⟨held, fun call hmem => (hheld call hmem).1,
    delivers_of_performed hreach hsc hrunning fun call hmem => (hheld call hmem).2⟩

/-- **A row of any calls settles.**  On a communicator of a run that is not in one cluster, let
the members call any collective operations with any arguments.  If in one run, whether sends wait
for their receives or not, all members return from all calls, every run can be completed when
sends do not wait, and all runs end with the same results. -/
theorem row_settles (hreach : System.Reachable cfg order s)
    (hsc : s.server[n]? = some (some sc))
    (hrunning : ∀ pid ∈ sc.tables.members, (s.processes pid).isSome)
    (hremote : ¬ OneCluster sc.tables.members) {calls : List (CollectiveCall E)}
    {ready : Session UInt8 (Held E) → Lane → Prop} {t : Session UInt8 (Held E)}
    {result : Nat → List (Held E)}
    (hrun : Relation.ReflTransGen (Session.Step sc.tables.members n ready)
      (s.session n sc.tables.members (calls.map (CollectiveCall.body cfg.numberOfClusters))) t)
    (hdone : ∀ r < sc.tables.members.length, t.member r = ⟨[], none, result r⟩) :
    Session.Delivers sc.tables.members n Session.Eager
      (s.session n sc.tables.members (calls.map (CollectiveCall.body cfg.numberOfClusters)))
      result := by
  rw [session, List.map_map] at hrun ⊢
  refine Session.delivers_of_run (nodup_members hreach hsc)
    (fun r hr => knows_member hreach hsc hrunning hr) ?_ ?_ hrun hdone
  · intro call _ r
    exact polite_caller hreach hsc hrunning
      (fun r p c hview => hview.polite_collective hremote call) r
  · intro call _ r hr
    rw [Function.comp_apply, caller, List.getElem?_eq_none hr]

/-! ### Two rows -/

/-- Elements of one byte. -/
def byteEnvironment : Environment Unit where
  Element _ := UInt8
  stored _ := .bytes
  lib _ := .inRankOrder UInt8
  types _ := ⟨fun handle => ⟨⟨handle, [(⟨handle, 1⟩, 0)], 1⟩, bytePacking⟩, fun _ => rfl⟩
  packing _ := bytePacking
  packing_lawful _ := bytePacking_lawful
  pmpiAllgather _ _ _ := .fail
  pmpiRooted _ _ := .fail
  pmpiEqual _ _ := .fail
  pmpiAlltoall _ _ := .fail

/-- A scan, a barrier, a gather to all and a scatter. -/
def mixedRow : List (CollectiveCall byteEnvironment) :=
  [.scan () sumScan, .bcast () .barrier, .allgather () gatherBytes, .equal scatterInts]

/-- Three processes in two clusters run them. -/
theorem rows_deliver_triple :
    ∃ held : CollectiveCall byteEnvironment → Nat → Held byteEnvironment,
      (∀ call ∈ mixedRow, call.Got (Server.worldMembers .triple).length (held call)) ∧
        Session.Delivers (Server.worldMembers .triple) 0 Session.Eager
          ((start .triple tripleServer).session 0 (Server.worldMembers .triple)
            (mixedRow.map (CollectiveCall.body 2)))
          fun r => mixedRow.map fun call => held call r := by
  have hworld : (start .triple tripleServer).server[0]? = some (some
      (Server.Communicator.fresh 0 (Server.tablesSpec (Server.worldMembers .triple)))) := rfl
  have hassociates : sumScan.kind.op.Associates sumScan.kind.type.handle sumScan.kind.count :=
    Operation.associates_elementwise UInt8.add_assoc _ _
  have hcommutes : sumScan.kind.op.Commutes sumScan.kind.type.handle sumScan.kind.count :=
    Operation.commutes_elementwise UInt8.add_comm _ _
  refine rows_deliver reachable_triple hworld running_triple spans_triple ?_ ?_
  · intro call hcall
    simp only [mixedRow, List.mem_cons, List.not_mem_nil, or_false] at hcall
    rcases hcall with rfl | rfl | rfl | rfl
    · exact ⟨⟨bytePacking_lawful, hassociates, Library.reduces_inRankOrder _ _ _⟩,
        fun _ _ => ⟨rfl, rfl⟩⟩
    · trivial
    · exact ⟨legal_gatherBytes _, fun _ _ => rfl⟩
    · exact legal_scatterInts
  · intro call hcall
    simp only [mixedRow, List.mem_cons, List.not_mem_nil, or_false] at hcall
    rcases hcall with rfl | rfl | rfl | rfl
    · exact Or.inr (Or.inr ⟨⟨rfl, bytePacking_sendable.mpr (by decide), by decide⟩,
        Operation.agrees_elementwise _ _, Or.inr (hcommutes.swaps hassociates)⟩)
    · trivial
    · exact fits_gatherBytes
    · exact ⟨fits_scatterInts, fun _ _ _ => Datatype.sendable_byte.mpr
        (show dataMessageSize + (empiInt.offsets 1).length < 2 ^ 31 by decide)⟩

/-- All runs of a scan with a wrong result have this result. -/
theorem row_settles_triple :
    Session.Delivers (Server.worldMembers .triple) 0 Session.Eager
      ((start .triple tripleServer).session 0 (Server.worldMembers .triple)
        (([.scan () keepFirstScan] : List (CollectiveCall byteEnvironment)).map
          (CollectiveCall.body 2)))
      fun r => [.elements () (keepFirstScan.scanned r)] := by
  have hworld : (start .triple tripleServer).server[0]? = some (some
      (Server.Communicator.fresh 0 (Server.tablesSpec (Server.worldMembers .triple)))) := rfl
  have hlegal : keepFirstScan.kind.Legal (byteEnvironment.lib ()) :=
    { lawful := bytePacking_lawful
      associates := Operation.associates_elementwise (fun _ _ _ => rfl) _ _
      reduces := Library.reduces_inRankOrder _ _ _ }
  let held : Nat → Held byteEnvironment := fun r => .elements () (keepFirstScan.scanned r)
  have hscan : Session.Performed (Server.worldMembers .triple) 0 (fun _ => True)
      ((start .triple tripleServer).caller 0 (Server.worldMembers .triple)
        (CollectiveCall.body 2 (.scan () keepFirstScan))) held :=
    performed_overBytes (performed_scan reachable_triple hworld running_triple
      not_oneCluster_triple hlegal (fun _ _ => ⟨rfl, rfl⟩)
      ⟨rfl, bytePacking_sendable.mpr (by decide), by decide⟩)
  have hrow : Session.Delivers (Server.worldMembers .triple) 0 Session.Eager
      ((start .triple tripleServer).session 0 (Server.worldMembers .triple)
        (([.scan () keepFirstScan] : List (CollectiveCall byteEnvironment)).map
          (CollectiveCall.body 2)))
      fun r => ([.scan () keepFirstScan] : List (CollectiveCall byteEnvironment)).map
        fun _ => held r :=
    delivers_of_performed reachable_triple hworld running_triple fun call hcall => by
      rw [List.mem_singleton.mp hcall]
      exact hscan
  obtain ⟨_, t, hrun, hdone⟩ := hrow _ .refl
  exact row_settles reachable_triple hworld running_triple not_oneCluster_triple hrun hdone

end System

end EsalsaMpi
