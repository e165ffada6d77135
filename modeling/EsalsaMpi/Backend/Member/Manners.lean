import EsalsaMpi.Backend.Member.Runs

/-!
# Members keep to their lanes

Whatever a member of a communicator receives, it sends only under its own rank
and receives only what is for it (`Polite`), with the tags of the collective
operations.  So it is enough for a call to be performed that the parts of the
members fit together (`System.performed`).
-/

namespace EsalsaMpi

open ProcessNetwork

namespace View

variable {α β : Type} {pk : Packing α} {type tag : Int} {members : List Pid} {n r : Nat}
  {p : Process} {c : Communicator} {carrier : Carrier}

theorem polite_sendEach (h : View members n r p c) (hcarrier : carrier.wideTag = none)
    (buf : List α) (dests : List Nat) : Polite members n r (sendEach c carrier buf dests) := by
  induction dests with
  | nil => exact .done ()
  | cons i dests ih =>
      refine .send ⟨h.globalRank, ?_⟩ ih
      simp only [hcarrier]

theorem polite_receiveFrom (h : View members n r p c) (hcarrier : carrier.wideTag = none)
    (source : Nat) (buf : List α) : Polite members n r (receiveFrom c carrier source buf) := by
  refine .recv ⟨h.globalRank, fun tag htag => ?_⟩ ?_
  · cases hcarrier.symm.trans htag
  · intro m
    cases m with
    | elements xs =>
        by_cases hlength : xs.length ≤ buf.length
        · simp only [if_pos hlength]
          exact .done _
        · simp only [if_neg hlength]
          exact .fail
    | wideArea m => exact .fail

theorem polite_collect (h : View members n r p c) (hcarrier : carrier.wideTag = none)
    (buf : List α) (sources : List Nat) : Polite members n r (collect c carrier buf sources) := by
  refine Keeps.foldlM ?_ []
  intro bufs i _
  by_cases hi : i = c.globalRank
  · rw [if_pos hi]
    exact .done _
  · rw [if_neg hi]
    exact (h.polite_receiveFrom hcarrier i buf).bind fun xs => .done _

theorem polite_pmpiSend (h : View members n r p c) (buf : List α) (dest : Nat) (tag : Int) :
    Polite members n r (pmpiSend c buf dest tag) := by
  unfold pmpiSend
  split
  · exact .send ⟨h.globalRank, trivial⟩ (.done ())
  · exact .fail

theorem polite_pmpiReceive (h : View members n r p c) (buf : List α) (source : Nat) (tag : Int) :
    Polite members n r (pmpiReceive c buf source tag) := by
  unfold pmpiReceive
  split
  · refine .recv ⟨h.globalRank, fun tag htag => by cases htag⟩ ?_
    intro m
    cases m with
    | elements xs => exact .ofOption _
    | wideArea m => exact .fail
  · exact .fail

theorem polite_pmpiBcast (h : View members n r p c) (root : Nat) (buf : List α) :
    Polite members n r (pmpiBcast c root buf) := by
  unfold pmpiBcast
  split
  · exact (h.polite_sendEach rfl buf _).bind fun _ => .done buf
  · split
    · exact h.polite_receiveFrom rfl _ buf
    · exact .fail

theorem polite_pmpiReduce (h : View members n r p c) (lib : Library α) (op : Operation α)
    (type : Int) (root : Nat) (sendbuf recvbuf : List α) :
    Polite members n r (pmpiReduce c lib op type root sendbuf recvbuf) := by
  unfold pmpiReduce
  split
  · exact (h.polite_collect rfl sendbuf _).bind fun bufs => .done _
  · split
    · exact .send ⟨h.globalRank, trivial⟩ (.done recvbuf)
    · exact .fail

theorem polite_pmpiAllreduce (h : View members n r p c) (lib : Library α) (op : Operation α)
    (type : Int) (sendbuf : List α) :
    Polite members n r (pmpiAllreduce c lib op type sendbuf) :=
  (h.polite_sendEach rfl sendbuf _).bind fun _ =>
    (h.polite_collect rfl sendbuf _).bind fun _ => .done _

theorem polite_pmpiScan (h : View members n r p c) (lib : Library α) (op : Operation α)
    (type : Int) (sendbuf : List α) : Polite members n r (pmpiScan c lib op type sendbuf) :=
  (h.polite_sendEach rfl sendbuf _).bind fun _ =>
    (h.polite_collect rfl sendbuf _).bind fun _ => .done _

theorem polite_enterBarrier (h : View members n r p c) :
    Polite members n r (enterBarrier (α := α) c) :=
  h.polite_sendEach rfl [] _

theorem polite_leaveBarrier (h : View members n r p c) :
    Polite members n r (leaveBarrier (α := α) c) :=
  Keeps.foldlM (fun _ i _ => (h.polite_receiveFrom rfl i []).bind fun _ => .done ()) ()

/-- A message that `do_send` of `messaging.c` makes is addressed as it says. -/
theorem polite_sendWide {m : DataMessage} {opcode : Nat} {buf : List α} {dest : Nat}
    (h : View members n r p c) (htag : IsCollectiveTag tag)
    (hm : EsalsaMpi.doSend pk p.pid opcode buf dest tag c = some m) :
    Polite members n r (sendWide (β := β) c m) := by
  obtain ⟨_, dstPid, payload, hdst, rfl⟩ := exists_of_doSend hm
  rw [h.getPid] at hdst
  refine .send ⟨h.globalRank, htag, h.mirrors.handle, ?_, rfl, hdst⟩ (.done ())
  exact congrArg Nat.cast h.globalRank

theorem polite_sendMessage (h : View members n r p c) (htag : IsCollectiveTag tag) (buf : List α)
    (dest : Nat) : Polite members n r (sendMessage (β := β) pk p c buf dest tag) := by
  unfold sendMessage
  split
  · next m hm => exact h.polite_sendWide htag hm
  · exact .fail

theorem polite_receiveMessage (h : View members n r p c) (htag : IsCollectiveTag tag)
    (buf : List α) (source : Nat) :
    Polite members n r (receiveMessage (β := β) pk type c buf source tag) := by
  refine .recv ⟨h.globalRank, fun tag' htag' => ?_⟩ ?_
  · cases htag'
    exact htag
  · intro m
    cases m with
    | elements xs => exact .fail
    | wideArea m => exact .ofOption _

/-- What the loop of `messaging_bcast` sends comes from its sends. -/
theorem mem_sent_bcastFrom {send : Nat → Option DataMessage} {k : Nat} {is : List Nat}
    {m : DataMessage} (hm : m ∈ (bcastFrom k send is).sent) : ∃ i, send i = some m := by
  induction is with
  | nil => cases hm
  | cons i is ih =>
      unfold bcastFrom at hm
      split at hm
      · exact ih hm
      · split at hm
        · cases hm
        · next m' hm' =>
          rcases List.mem_cons.mp hm with rfl | hm
          · exact ⟨i, hm'⟩
          · exact ih hm

theorem polite_bcastMessages (h : View members n r p c) (clusterCount : Nat) (buf : List α) :
    Polite members n r (bcastMessages (β := β) pk p c clusterCount buf) := by
  have hsent : ∀ m ∈ (messagingBcast pk clusterCount p buf c).sent,
      Polite members n r (sendWide (β := β) c m) := by
    intro m hm
    obtain ⟨i, hi⟩ := mem_sent_bcastFrom hm
    obtain ⟨dest, _, hsend⟩ := Option.bind_eq_some_iff.mp hi
    exact h.polite_sendWide (by decide) hsend
  unfold bcastMessages
  generalize messagingBcast pk clusterCount p buf c = b at hsent ⊢
  obtain ⟨reads, sent, success⟩ := b
  show Polite members n r (sent.foldr (fun m next => sendWide c m >>= fun _ => next)
    (if success then .done () else .fail))
  change ∀ m ∈ sent, _ at hsent
  induction sent with
  | nil =>
      cases success
      · exact .fail
      · exact .done ()
  | cons m sent ih =>
      exact (hsent m List.mem_cons_self).bind fun _ =>
        ih fun m' hm' => hsent m' (List.mem_cons_of_mem m hm')

theorem polite_doSend (h : View members n r p c) (htag : IsCollectiveTag tag) (buf : List α)
    (dest : Nat) : Polite members n r (Empi.doSend pk p c buf dest tag) := by
  unfold Empi.doSend
  split
  · exact (Keeps.ofOption _).bind fun rank => h.polite_pmpiSend buf rank tag
  · exact h.polite_sendMessage htag buf dest

theorem polite_doRecv (h : View members n r p c) (htag : IsCollectiveTag tag) (buf : List α)
    (source : Nat) : Polite members n r (Empi.doRecv pk type p c buf source tag) := by
  unfold Empi.doRecv
  split
  · exact (Keeps.ofOption _).bind fun rank => h.polite_pmpiReceive buf rank tag
  · exact h.polite_receiveMessage htag buf source

end View

/-! ### Calls in a run -/

/-- The process with rank `r` of communicator `n` runs `body` in a call. -/
def System.caller {α β : Type} (s : System) (n : Nat) (members : List Pid)
    (body : Nat → Process → Communicator → Caller α β) (r : Nat) : Caller α β :=
  match members[r]? with
  | none => .fail
  | some pid =>
    match s.processes pid with
    | none => .fail
    | some p =>
      match p.comms n with
      | none => .fail
      | some c => body r p c

/-- The communicators that the process with rank `r` knows. -/
def System.knows (s : System) (members : List Pid) (r h : Nat) : Bool :=
  (((members[r]?).bind s.processes).bind fun p => p.comms h).isSome

/-- The members of communicator `n` before a row of calls. -/
def System.session {α β : Type} (s : System) (n : Nat) (members : List Pid)
    (calls : List (Nat → Process → Communicator → Caller α β)) : Session α β :=
  Session.start (calls.map (s.caller n members)) (s.knows members)

namespace System

variable {α β : Type} {cfg : Server.Config} {order : Server.HashOrder} {s : System}
  {sc : Server.Communicator} {n r : Nat}

theorem nodup_members (hreach : System.Reachable cfg order s)
    (hsc : s.server[n]? = some (some sc)) : sc.tables.members.Nodup := by
  obtain ⟨members, hvalid, hsc'⟩ := (System.inv_of_reachable hreach).communicator n sc hsc
  rw [hsc']
  exact hvalid.nodup

/-- What a member runs, and what it knows of the communicator. -/
theorem exists_view (hreach : System.Reachable cfg order s) (hsc : s.server[n]? = some (some sc))
    (hrunning : ∀ pid ∈ sc.tables.members, (s.processes pid).isSome)
    (hr : r < sc.tables.members.length) :
    ∃ p c, View sc.tables.members n r p c ∧ s.knows sc.tables.members r n = true ∧
      ∀ body : Nat → Process → Communicator → Caller α β,
        s.caller n sc.tables.members body r = body r p c := by
  have hinv := System.inv_of_reachable hreach
  have hnodup := nodup_members hreach hsc
  have hmem := List.getElem_mem hr
  have hget := List.getElem?_eq_getElem hr
  obtain ⟨p, hp⟩ := Option.isSome_iff_exists.mp (hrunning _ hmem)
  obtain ⟨c, hc, hmirrors⟩ := hinv.mirror _ p hp n sc hsc hmem
  have hpid : p.pid = sc.tables.members[r] := (hinv.process _ p hp).1
  refine ⟨p, c, ⟨hnodup, by rw [hpid, hget], ?_, by rw [hpid]; exact hmirrors, ?_⟩, ?_, ?_⟩
  · have hlt := (List.getElem?_eq_some_iff.mp hmirrors.globalRank).1
    exact (List.getElem?_inj hlt hnodup).mp (hmirrors.globalRank.trans hget.symm)
  · rw [commIsLocal_iff hreach hp hc, hmirrors.tables]
    rfl
  · simp only [knows, hget, Option.bind_some, hp, hc, Option.isSome_some]
  · intro body
    simp only [caller, hget, hp, hc]

/-- What the members run keeps to their lanes. -/
theorem polite_caller (hreach : System.Reachable cfg order s)
    (hsc : s.server[n]? = some (some sc))
    (hrunning : ∀ pid ∈ sc.tables.members, (s.processes pid).isSome)
    {run : Nat → Process → Communicator → Caller α β}
    (hpolite : ∀ r p c, View sc.tables.members n r p c →
      Polite sc.tables.members n r (run r p c)) (r : Nat) :
    Polite sc.tables.members n r (s.caller n sc.tables.members run r) := by
  by_cases hr : r < sc.tables.members.length
  · obtain ⟨p, c, hview, _, hbody⟩ := exists_view (α := α) (β := β) hreach hsc hrunning hr
    rw [hbody]
    exact hpolite r p c hview
  · rw [caller, List.getElem?_eq_none (Nat.le_of_not_lt hr)]
    exact .fail

/-- **A call is performed** if the members keep to their lanes and their parts are those
of blocks of messages. -/
theorem performed (hreach : System.Reachable cfg order s) (hsc : s.server[n]? = some (some sc))
    (hrunning : ∀ pid ∈ sc.tables.members, (s.processes pid).isSome)
    {Q : List (Lane × Packet α) → Prop} {body : Nat → Process → Communicator → Caller α β}
    {result : Nat → β} (blocks : List (List (Lane × Packet α)))
    (hpolite : ∀ r p c, View sc.tables.members n r p c →
      Polite sc.tables.members n r (body r p c))
    (hfollows : ∀ r p c, View sc.tables.members n r p c →
      Follows (body r p c) (partOf Lane.source Lane.dest r blocks) (result r))
    (hinside : ∀ b ∈ blocks, ∀ t ∈ b,
      t.1.source < sc.tables.members.length ∧ t.1.dest < sc.tables.members.length)
    (hQ : ∀ b ∈ blocks, Q b) :
    Session.Performed sc.tables.members n Q (s.caller n sc.tables.members body) result where
  polite := polite_caller hreach hsc hrunning hpolite
  blocks := by
    refine ⟨blocks, hQ, ?_, hinside⟩
    intro r hr
    obtain ⟨p, c, hview, _, hbody⟩ := exists_view (α := α) (β := β) hreach hsc hrunning hr
    rw [hbody]
    exact hfollows r p c hview
  outside r hr := by rw [caller, List.getElem?_eq_none hr]

variable {κ : Type} {calls : List κ} {body : κ → Nat → Process → Communicator → Caller α β}
  {result : κ → Nat → β}

/-- The members know the communicator. -/
theorem knows_member (hreach : System.Reachable cfg order s) (hsc : s.server[n]? = some (some sc))
    (hrunning : ∀ pid ∈ sc.tables.members, (s.processes pid).isSome)
    (hr : r < sc.tables.members.length) : s.knows sc.tables.members r n = true := by
  obtain ⟨_, _, _, hknows, _⟩ := exists_view (α := Unit) (β := Unit) hreach hsc hrunning hr
  exact hknows

/-- **A row does not deliver** if a member is never done in one of the calls. -/
theorem not_delivers (hreach : System.Reachable cfg order s)
    (hsc : s.server[n]? = some (some sc))
    (hrunning : ∀ pid ∈ sc.tables.members, (s.processes pid).isSome)
    (hpolite : ∀ k ∈ calls, ∀ r p c, View sc.tables.members n r p c →
      Polite sc.tables.members n r (body k r p c)) {k : κ} (hk : k ∈ calls)
    (hr : r < sc.tables.members.length)
    (hdoomed : ∀ p c, View sc.tables.members n r p c → Doomed (body k r p c))
    (ready : Session α β → Lane → Prop) (results : Nat → List β) :
    ¬ Session.Delivers sc.tables.members n ready
      (s.session n sc.tables.members (calls.map body)) results := by
  obtain ⟨p, c, hview, _, hbody⟩ := exists_view (α := α) (β := β) hreach hsc hrunning hr
  rw [session, List.map_map]
  refine Session.not_delivers (nodup_members hreach hsc)
    (fun r hr => knows_member hreach hsc hrunning hr)
    (fun k hk r => polite_caller hreach hsc hrunning (hpolite k hk) r) hk hr ?_ results
  rw [hbody]
  exact hdoomed p c hview

/-- **A row of calls that are performed** delivers its results. -/
theorem delivers_of_performed (hreach : System.Reachable cfg order s) (hsc : s.server[n]? = some (some sc))
    (hrunning : ∀ pid ∈ sc.tables.members, (s.processes pid).isSome)
    (h : ∀ k ∈ calls, Session.Performed sc.tables.members n (fun _ => True)
      (s.caller n sc.tables.members (body k)) (result k)) :
    Session.Delivers sc.tables.members n Session.Eager
      (s.session n sc.tables.members (calls.map body)) fun r => calls.map fun k => result k r := by
  rw [session, List.map_map]
  exact Session.delivers_calls (nodup_members hreach hsc)
    (fun r hr => knows_member hreach hsc hrunning hr) h

/-- **It delivers other results** if and only if they are the same. -/
theorem delivers_iff_of_performed (hreach : System.Reachable cfg order s)
    (hsc : s.server[n]? = some (some sc))
    (hrunning : ∀ pid ∈ sc.tables.members, (s.processes pid).isSome)
    (h : ∀ k ∈ calls, Session.Performed sc.tables.members n (fun _ => True)
      (s.caller n sc.tables.members (body k)) (result k)) (result' : κ → Nat → β) :
    Session.Delivers sc.tables.members n Session.Eager
        (s.session n sc.tables.members (calls.map body))
        (fun r => calls.map fun k => result' k r) ↔
      ∀ k ∈ calls, ∀ r < sc.tables.members.length, result k r = result' k r := by
  constructor
  · intro hdelivers k hk r hr
    have hsame := (delivers_of_performed hreach hsc hrunning h).unique hdelivers hr
      (by rw [List.length_map, List.length_map])
    exact List.map_inj_left.mp hsame k hk
  · intro hsame
    exact delivers_of_performed hreach hsc hrunning fun k hk => (h k hk).congr (hsame k hk)

/-- The same where sends wait for their receives. -/
theorem delivers_prompt {ready : Session α β → Lane → Prop} (hprompt : Session.Prompt ready)
    (hreach : System.Reachable cfg order s) (hsc : s.server[n]? = some (some sc))
    (hrunning : ∀ pid ∈ sc.tables.members, (s.processes pid).isSome)
    (h : ∀ k ∈ calls, Session.Performed sc.tables.members n
      (fun b => ∃ t, b = [t] ∧ t.1.source ≠ t.1.dest)
      (s.caller n sc.tables.members (body k)) (result k)) :
    Session.Delivers sc.tables.members n ready
      (s.session n sc.tables.members (calls.map body)) fun r => calls.map fun k => result k r := by
  rw [session, List.map_map]
  exact Session.delivers_prompt hprompt (nodup_members hreach hsc)
    (fun r hr => knows_member hreach hsc hrunning hr) h

end System

end EsalsaMpi
