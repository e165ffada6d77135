import EsalsaMpi.Gateway.MainLoop.Changes

/-!
# When a gateway is done

`receive_mpi_server_reply` is called with its two pointers the other way round: it tells in
`*done` whether a message has arrived, and `process_gateway_message` says in `receivedReply`
that it was the one to stop for.  As only replies to `FINALIZE` are sent to gateways, both come
to the same, and the loop is left before the function is called again.

The master gateway gets its reply from the server itself, behind those that it forwards.
-/

namespace EsalsaMpi

namespace MainLoop

open Wire

/-- A reply to `FINALIZE` that is addressed to the gateway. -/
structure Process.IsFinalizeReply (g : Process) (m : Bytes) : Prop where
  opcode : opcode g.order m = opcodeFinalizeReply
  destination : destination g.order m = g.myPid

/-- The message that has been taken from the server, for an action that does so. -/
def Action.handled? : Action → Option Bytes
  | .processed m => some m
  | .forwardedReply m => some m
  | _ => none

/-- The message that has been forwarded for the server, for an action that does so. -/
def Action.forwarded? : Action → Option Bytes
  | .forwardedReply m => some m
  | _ => none

/-- The message that has been read from the server, for an action that does so. -/
def Action.fromServer? : Action → Option Bytes
  | .read .server m => m
  | _ => none

/-- The replies that the gateway has read from the server, in the order of the link. -/
def repliesRead (trace : List Action) : List Bytes := trace.filterMap Action.fromServer?

/-- The replies that the gateway has taken from the server so far, in their order. -/
def repliesHandled (trace : List Action) : List Bytes := trace.filterMap Action.handled?

/-- The replies that the gateway has forwarded, in their order. -/
def repliesForwarded (trace : List Action) : List Bytes := trace.filterMap Action.forwarded?

/-- The gateway has processed a reply to `FINALIZE`: from the server, or received by MPI. -/
def Finalized (g : Process) (trace : List Action) : Prop :=
  ∃ m, g.IsFinalizeReply m ∧ (.processed m ∈ trace ∨ .reply (some m) ∈ trace)

/-- The places from which the loop is left before anything else is received. -/
def Place.Ending : Place → Prop
  | .forwardServer _ _ => True
  | .forwardData => True
  | .pollRequests => True
  | .exited => True
  | .failed => True
  | _ => False

/-- What a step does about the server. -/
inductive Serves (g : Process) (s : State) (a : Action) (s' : State) : Prop where
  | aside (hhandled : a.handled? = none) (hread : a.fromServer? = none)
      (hreply : ∀ m, a ≠ .reply (some m)) (hdone : s'.done = s.done)
      (hqueue : s'.serverQueueIn = s.serverQueueIn)
      (hending : s.done = true → s.place.Ending → s'.place.Ending)
      (hexited : s'.place = .exited → s.done = true)
  | reply (m : Option Bytes) (ha : a = .reply m) (hplace : ¬ s.place.Ending)
      (hdone : s'.done = m.isSome) (hqueue : s'.serverQueueIn = s.serverQueueIn)
      (hending : s'.place.Ending) (hexited : s'.place ≠ .exited)
  | processed (m : Bytes) (rest : List Bytes) (ha : a = .processed m)
      (hqueue : s.serverQueueIn = m :: rest) (hm : g.IsFinalizeReply m) (hending : s.place.Ending)
      (h : s' = { s with serverQueueIn := rest, done := true })
  | forwarded (m : Bytes) (rest : List Bytes) (ha : a = .forwardedReply m)
      (hqueue : s.serverQueueIn = m :: rest) (hpid : destination g.order m ≠ g.myPid)
      (hcluster : getClusterRank (destination g.order m) = g.clusterRank)
      (hexited : s.place ≠ .exited)
      (h : s' = { s with serverQueueIn := rest, mpiMessages := m :: s.mpiMessages })
  | dropped (m : Bytes) (rest : List Bytes) (ha : a = .internal)
      (hqueue : s.serverQueueIn = m :: rest)
      (h : s' = { s with serverQueueIn := rest, place := .failed })
  | read (m : Option Bytes) (ha : a = .read .server m) (hplace : ¬ s.place.Ending)
      (hexited : s'.place ≠ .exited) (hdone : s'.done = s.done)
      (hqueue : s'.serverQueueIn = s.serverQueueIn ++ m.toList)
      (hmaster : (s.connections .server).sockets ≠ [])

variable {g : Process} {s s' : State} {a : Action} {trace : List Action} {m : Bytes}

theorem isFinalizeReply_of_process {done : Bool} (hpid : destination g.order m = g.myPid)
    (h : processGatewayMessage g.order m = some done) : g.IsFinalizeReply m ∧ done = true := by
  unfold processGatewayMessage at h
  split at h
  · cases h
  · next hopcode =>
    cases h
    exact ⟨⟨not_not.mp hopcode, hpid⟩, rfl⟩

/-- `*done` tells whether a message has arrived. -/
theorem done_of_receive {o : ByteOrder} {receivedReply done : Bool} {m : Option Bytes}
    (h : receiveMpiServerReply o false m = some (receivedReply, done)) : done = m.isSome := by
  cases m with
  | none =>
      cases h
      rfl
  | some m =>
      obtain ⟨received, _, heq⟩ := Option.map_eq_some_iff.mp h
      cases heq
      rfl

/-- **What a step does about the server.** -/
theorem Step.serves (h : Step g s a s') : Serves g s a s' := by
  cases h with
  | noRequest hplace =>
      exact .aside rfl rfl (by simp) rfl rfl (by rw [hplace]; exact fun _ h => h.elim) (by simp)
  | request hplace =>
      exact .aside rfl rfl (by simp) rfl rfl (by rw [hplace]; exact fun _ h => h.elim) (by simp)
  | requestFailed => exact .aside rfl rfl (by simp) rfl rfl (fun _ _ => trivial) (by simp)
  | reply hplace hreply =>
      exact .reply _ rfl (by rw [hplace]; exact id) (done_of_receive hreply) rfl trivial (by simp)
  | @replyFailed _ m hplace hreply =>
      cases m with
      | none => cases hreply
      | some m => exact .reply _ rfl (by rw [hplace]; exact id) rfl rfl trivial (by simp)
  | processed hplace hqueue hpid hprocess =>
      obtain ⟨hm, rfl⟩ := isFinalizeReply_of_process hpid hprocess
      exact .processed _ _ rfl hqueue hm (by rw [hplace]; trivial) rfl
  | processedFailed _ hqueue => exact .dropped _ _ rfl hqueue rfl
  | forwardReply hplace hqueue hpid hcluster =>
      exact .forwarded _ _ rfl hqueue hpid hcluster (by rw [hplace]; exact Place.noConfusion) rfl
  | forwardReplyFailed _ hqueue => exact .dropped _ _ rfl hqueue rfl
  | serverForwarded =>
      refine .aside rfl rfl (by simp) rfl rfl (fun hdone _ => ?_) ?_
      · simp only [hdone, Bool.not_true, Bool.and_false, Bool.false_eq_true, if_false]
        trivial
      · dsimp only
        split <;> exact Place.noConfusion
  | forwardData hplace =>
      exact .aside rfl rfl (by simp) rfl rfl (fun _ h => h) (by simp [hplace])
  | forwardDataFailed => exact .aside rfl rfl (by simp) rfl rfl (fun _ _ => trivial) (by simp)
  | dataForwarded => exact .aside rfl rfl (by simp) rfl rfl (fun _ _ => trivial) (by simp)
  | pollRequests =>
      refine .aside rfl rfl (by simp) rfl rfl (fun hdone _ => ?_) ?_
      · simp only [hdone, if_true]
        trivial
      · dsimp only
        split
        · next hdone => exact fun _ => hdone
        · exact Place.noConfusion
  | data hplace =>
      exact .aside rfl rfl (by simp) rfl rfl (by rw [hplace]; exact fun _ h => h.elim) (by simp)
  | dataReceived hplace =>
      exact .aside rfl rfl (by simp) rfl rfl (by rw [hplace]; exact fun _ h => h.elim) (by simp)
  | prepare hplace =>
      exact .aside rfl rfl (by simp) rfl rfl (by rw [hplace]; exact fun _ h => h.elim) (by simp)
  | poll hplace =>
      exact .aside rfl rfl (by simp) rfl rfl (by rw [hplace]; exact fun _ h => h.elim) (by simp)
  | handled hplace =>
      refine .aside rfl rfl (by simp) rfl rfl (by rw [hplace]; exact fun _ h => h.elim) ?_
      dsimp only
      split
      · next hdone => exact fun _ => hdone
      · exact Place.noConfusion
  | eventFailed => exact .aside rfl rfl (by simp) rfl rfl (fun _ _ => trivial) (by simp)
  | event hplace =>
      refine .aside rfl rfl (by simp) rfl rfl (by rw [hplace]; exact fun _ h => h.elim) ?_
      dsimp only
      unfold Place.afterWrite
      split
      · exact Place.noConfusion
      · split <;> exact Place.noConfusion
  | nothingToWrite hplace =>
      refine .aside rfl rfl (by simp) rfl rfl (by rw [hplace]; exact fun _ h => h.elim) ?_
      dsimp only
      unfold Place.afterWrite
      split <;> exact Place.noConfusion
  | prepareMessage hplace =>
      exact .aside rfl rfl (by simp) rfl rfl (by rw [hplace]; exact fun _ h => h.elim) (by simp)
  | @wrote e rest sock tmp hplace =>
      have hwrote : (s.wrote e rest sock tmp).done = s.done ∧
          (s.wrote e rest sock tmp).serverQueueIn = s.serverQueueIn ∧
          (s.wrote e rest sock tmp).place ≠ .exited := by
        unfold State.wrote
        dsimp only
        split
        · exact ⟨rfl, rfl, Place.noConfusion⟩
        · split <;> exact ⟨rfl, rfl, Place.noConfusion⟩
      exact .aside rfl rfl (by simp) hwrote.1 hwrote.2.1 (by rw [hplace]; exact fun _ h => h.elim)
        fun hexited => absurd hexited hwrote.2.2
  | writeBlocked hplace =>
      refine .aside rfl rfl (by simp) rfl rfl (by rw [hplace]; exact fun _ h => h.elim) ?_
      dsimp only
      unfold Place.afterWrite
      split <;> exact Place.noConfusion
  | writeFailed => exact .aside rfl rfl (by simp) rfl rfl (fun _ _ => trivial) (by simp)
  | @read e _ _ _ _ _ _ _ _ m hplace hsock _ =>
      cases hpeer : e.peer with
      | server =>
          rw [hpeer] at hsock
          refine .read m rfl (by rw [hplace]; exact id) ?_ rfl rfl
            (List.ne_nil_of_mem (List.mem_of_getElem? hsock))
          dsimp only
          split <;> exact Place.noConfusion
      | cluster k =>
          refine .aside rfl rfl (by simp) rfl rfl (by rw [hplace]; exact fun _ h => h.elim) ?_
          dsimp only
          split <;> exact Place.noConfusion
  | readFailed => exact .aside rfl rfl (by simp) rfl rfl (fun _ _ => trivial) (by simp)

/-! ### The flag -/

/-- The flag is set only where the loop is about to be left, and it is set when it has been. -/
structure FlagInv (s : State) : Prop where
  ending : s.done = true → s.place.Ending
  exited : s.place = .exited → s.done = true

theorem FlagInv.step (h : FlagInv s) (hserves : Serves g s a s') : FlagInv s' := by
  cases hserves with
  | aside _ _ _ hdone _ hending hexited =>
      rw [← hdone] at hending hexited
      exact ⟨fun hdone' => hending hdone' (h.ending (hdone ▸ hdone')), hexited⟩
  | reply m _ _ _ _ hending hexited =>
      exact ⟨fun _ => hending, fun hplace => absurd hplace hexited⟩
  | processed m rest _ _ _ hending heq =>
      subst heq
      exact ⟨fun _ => hending, fun _ => rfl⟩
  | forwarded m rest _ _ _ _ hexited heq =>
      subst heq
      exact ⟨h.ending, fun hplace => absurd hplace hexited⟩
  | dropped m rest _ _ heq =>
      subst heq
      exact ⟨fun _ => trivial, fun hplace => by cases hplace⟩
  | read m _ hplace hexited hdone _ _ =>
      refine ⟨fun hdone' => ?_, fun hplace' => absurd hplace' hexited⟩
      rw [hdone] at hdone'
      exact absurd (h.ending hdone') hplace

theorem flagInv_of_run (h : Run g trace s) : FlagInv s := by
  induction h with
  | start => exact ⟨nofun, nofun⟩
  | step _ hstep ih => exact ih.step hstep.serves

/-- **The flag is never reset.** -/
theorem done_of_step (h : Run g trace s) (hstep : Step g s a s') (hdone : s.done = true) :
    s'.done = true := by
  have hending := (flagInv_of_run h).ending hdone
  cases hstep.serves with
  | aside _ _ _ hsame => rw [hsame, hdone]
  | reply _ _ hplace => exact absurd hending hplace
  | processed _ _ _ _ _ _ heq => rw [heq]
  | forwarded _ _ _ _ _ _ _ heq => rw [heq, hdone]
  | dropped _ _ _ _ heq => rw [heq, hdone]
  | read _ _ _ _ hsame => rw [hsame, hdone]

/-- Other actions do not make the gateway stop. -/
theorem finalized_append_iff (hprocessed : ∀ m, a ≠ .processed m)
    (hreply : ∀ m, a ≠ .reply (some m)) : Finalized g (trace ++ [a]) ↔ Finalized g trace := by
  have hmem : ∀ b, b ≠ a → (b ∈ trace ++ [a] ↔ b ∈ trace) := by
    intro b hb
    rw [List.mem_append, List.mem_singleton]
    exact or_iff_left hb
  refine exists_congr fun m => and_congr_right fun _ => ?_
  rw [hmem _ (hprocessed m).symm, hmem _ (hreply m).symm]

/-- **The flag is set exactly if** a reply to `FINALIZE` has been processed, when only such
replies are received by MPI. -/
theorem done_iff_finalized (h : Run g trace s)
    (hreplies : ∀ m, .reply (some m) ∈ trace → g.IsFinalizeReply m) :
    s.done = true ↔ Finalized g trace := by
  induction h with
  | start =>
      refine ⟨nofun, fun ⟨m, _, hm⟩ => ?_⟩
      rcases hm with hm | hm
      · exact absurd hm List.not_mem_nil
      · exact absurd hm List.not_mem_nil
  | @step trace s s' a hrun hstep ih =>
      have ih := ih fun m hm => hreplies m (List.mem_append_left _ hm)
      cases hstep.serves with
      | aside hhandled _ hreply hsame =>
          rw [hsame, ih, finalized_append_iff _ hreply]
          rintro m rfl
          cases hhandled
      | reply m ha hplace hdone =>
          subst ha
          cases m with
          | none =>
              rw [hdone, finalized_append_iff (by simp) (by simp), ← ih]
              refine ⟨nofun, fun hdone' => ?_⟩
              exact absurd ((flagInv_of_run hrun).ending hdone') hplace
          | some m =>
              have hmem : Action.reply (some m) ∈ trace ++ [.reply (some m)] := by simp
              exact ⟨fun _ => ⟨m, hreplies m hmem, Or.inr hmem⟩, fun _ => hdone⟩
      | processed m rest ha _ hm _ heq =>
          subst heq ha
          exact ⟨fun _ => ⟨m, hm, Or.inl (by simp)⟩, fun _ => rfl⟩
      | forwarded m rest ha _ _ _ _ heq =>
          subst heq ha
          rw [finalized_append_iff (by simp) (by simp)]
          exact ih
      | dropped m rest ha _ heq =>
          subst heq ha
          rw [finalized_append_iff (by simp) (by simp)]
          exact ih
      | read m ha _ _ hdone =>
          subst ha
          rw [finalized_append_iff (by simp) (by simp), hdone]
          exact ih

/-! ### The replies -/

/-- Nothing follows an error. -/
theorem Step.place_ne_failed (h : Step g s a s') : s.place ≠ .failed := by
  intro hfailed
  cases h <;> exact absurd (hfailed.symm.trans ‹s.place = _›) Place.noConfusion

/-- What a gateway has done with the replies from the server: those that it has taken are the
first that it has read; it has forwarded those to others, and the others make it stop. -/
structure ReplyInv (g : Process) (trace : List Action) (s : State) : Prop where
  queue : s.place ≠ .failed → repliesRead trace = repliesHandled trace ++ s.serverQueueIn
  handled_prefix : repliesHandled trace <+: repliesRead trace
  forwarded : repliesForwarded trace =
    (repliesHandled trace).filter fun m => destination g.order m ≠ g.myPid
  finalize : ∀ m ∈ repliesHandled trace, destination g.order m = g.myPid → g.IsFinalizeReply m
  processed : ∀ m, .processed m ∈ trace → m ∈ repliesHandled trace

theorem ReplyInv.aside (h : ReplyInv g trace s) (hfailed : s.place ≠ .failed)
    (hhandled : a.handled? = none) (hread : a.fromServer? = none)
    (hqueue : s'.serverQueueIn = s.serverQueueIn) : ReplyInv g (trace ++ [a]) s' := by
  have hforwarded : a.forwarded? = none := by
    cases a with
    | forwardedReply => cases hhandled
    | _ => rfl
  have hr : repliesRead (trace ++ [a]) = repliesRead trace := by
    simp [repliesRead, List.filterMap_append, hread]
  have hh : repliesHandled (trace ++ [a]) = repliesHandled trace := by
    simp [repliesHandled, List.filterMap_append, hhandled]
  have hf : repliesForwarded (trace ++ [a]) = repliesForwarded trace := by
    simp [repliesForwarded, List.filterMap_append, hforwarded]
  refine
    { queue := fun _ => ?_
      handled_prefix := ?_
      forwarded := ?_
      finalize := ?_
      processed := fun m hm => ?_ }
  · rw [hr, hh, hqueue]
    exact h.queue hfailed
  · rw [hr, hh]
    exact h.handled_prefix
  · rw [hf, hh]
    exact h.forwarded
  · rw [hh]
    exact h.finalize
  · rw [hh]
    rcases List.mem_append.mp hm with hm | hm
    · exact h.processed m hm
    · rw [← List.mem_singleton.mp hm] at hhandled
      cases hhandled

/-- A reply is taken from the queue. -/
theorem ReplyInv.handled (h : ReplyInv g trace s) (hfailed : s.place ≠ .failed) {rest : List Bytes}
    (hqueue : s.serverQueueIn = m :: rest) (hqueue' : s'.serverQueueIn = rest)
    (hhandled : a.handled? = some m) (hread : a.fromServer? = none)
    (hforwarded : a.forwarded? = if destination g.order m = g.myPid then none else some m)
    (hfinalize : destination g.order m = g.myPid → g.IsFinalizeReply m) :
    ReplyInv g (trace ++ [a]) s' := by
  have hr : repliesRead (trace ++ [a]) = repliesRead trace := by
    simp [repliesRead, List.filterMap_append, hread]
  have hh : repliesHandled (trace ++ [a]) = repliesHandled trace ++ [m] := by
    simp [repliesHandled, List.filterMap_append, hhandled]
  have hall : repliesRead trace = (repliesHandled trace ++ [m]) ++ rest := by
    rw [h.queue hfailed, hqueue, List.append_assoc, List.singleton_append]
  refine
    { queue := fun _ => ?_
      handled_prefix := ?_
      forwarded := ?_
      finalize := ?_
      processed := fun m' hm' => ?_ }
  · rw [hr, hh, hqueue', hall]
  · rw [hr, hh]
    exact ⟨rest, hall.symm⟩
  · rw [hh, List.filter_append, ← h.forwarded]
    by_cases hpid : destination g.order m = g.myPid
    · rw [if_pos hpid] at hforwarded
      simp [repliesForwarded, List.filterMap_append, hforwarded, hpid]
    · rw [if_neg hpid] at hforwarded
      simp [repliesForwarded, List.filterMap_append, hforwarded, hpid]
  · rw [hh]
    intro m' hm' hpid
    rcases List.mem_append.mp hm' with hm' | hm'
    · exact h.finalize m' hm' hpid
    · rw [List.mem_singleton.mp hm'] at hpid ⊢
      exact hfinalize hpid
  · rw [hh]
    rcases List.mem_append.mp hm' with hm' | hm'
    · exact List.mem_append_left _ (h.processed m' hm')
    · rw [← List.mem_singleton.mp hm', Action.handled?, Option.some.injEq] at hhandled
      rw [hhandled]
      exact List.mem_append_right _ List.mem_cons_self

theorem ReplyInv.step (h : ReplyInv g trace s) (hstep : Step g s a s') :
    ReplyInv g (trace ++ [a]) s' := by
  have hfailed := hstep.place_ne_failed
  cases hstep.serves with
  | aside hhandled hread _ _ hqueue => exact h.aside hfailed hhandled hread hqueue
  | reply m ha _ _ hqueue =>
      subst ha
      exact h.aside hfailed rfl rfl hqueue
  | processed m rest ha hqueue hm _ heq =>
      subst heq ha
      exact h.handled hfailed hqueue rfl rfl rfl (if_pos hm.destination).symm fun _ => hm
  | forwarded m rest ha hqueue hpid _ _ heq =>
      subst heq ha
      exact h.handled hfailed hqueue rfl rfl rfl (if_neg hpid).symm fun h => absurd h hpid
  | dropped m rest ha hqueue heq =>
      subst heq ha
      have hsame : ReplyInv g (trace ++ [.internal]) s := h.aside hfailed rfl rfl rfl
      exact { hsame with queue := fun hplace => absurd rfl hplace }
  | read m ha _ _ _ hqueue =>
      subst ha
      have hr : repliesRead (trace ++ [.read .server m]) = repliesRead trace ++ m.toList := by
        cases m with
        | none => simp [repliesRead, List.filterMap_append, Action.fromServer?]
        | some m => simp [repliesRead, List.filterMap_append, Action.fromServer?]
      have hh : repliesHandled (trace ++ [.read .server m]) = repliesHandled trace := by
        simp [repliesHandled, List.filterMap_append, Action.handled?]
      have hf : repliesForwarded (trace ++ [.read .server m]) = repliesForwarded trace := by
        simp [repliesForwarded, List.filterMap_append, Action.forwarded?]
      refine
        { queue := fun _ => ?_
          handled_prefix := ?_
          forwarded := ?_
          finalize := ?_
          processed := fun m' hm' => ?_ }
      · rw [hr, hh, hqueue, h.queue hfailed, List.append_assoc]
      · rw [hr, hh]
        exact h.handled_prefix.trans (List.prefix_append _ _)
      · rw [hf, hh]
        exact h.forwarded
      · rw [hh]
        exact h.finalize
      · rw [hh]
        rcases List.mem_append.mp hm' with hm' | hm'
        · exact h.processed m' hm'
        · cases List.mem_singleton.mp hm'

theorem replyInv_of_run (h : Run g trace s) : ReplyInv g trace s := by
  induction h with
  | start =>
      exact
        { queue := fun _ => rfl
          handled_prefix := List.prefix_rfl
          forwarded := rfl
          finalize := fun m hm => absurd hm List.not_mem_nil
          processed := fun m hm => absurd hm List.not_mem_nil }
  | step _ hstep ih => exact ih.step hstep

/-- **When a gateway has processed a reply from the server**, it has forwarded all that came in
front of it. -/
theorem forwarded_of_processed (h : Run g trace s) (hprocessed : .processed m ∈ trace)
    (hpid : destination g.order m = g.myPid) :
    ∃ before fin after, repliesRead trace = before ++ fin :: after ∧ g.IsFinalizeReply fin ∧
      (∀ m ∈ before, destination g.order m ≠ g.myPid) ∧ before <+: repliesForwarded trace := by
  have hinv := replyInv_of_run h
  have hsome : ((repliesHandled trace).find? fun m => destination g.order m = g.myPid).isSome := by
    rw [List.find?_isSome]
    exact ⟨m, hinv.processed m hprocessed, by simpa using hpid⟩
  obtain ⟨fin, hfin⟩ := Option.isSome_iff_exists.mp hsome
  obtain ⟨hmine, before, after, hsplit, hothers⟩ := List.find?_eq_some_iff_append.mp hfin
  obtain ⟨later, hlater⟩ := hinv.handled_prefix
  have hbefore : ∀ m ∈ before, destination g.order m ≠ g.myPid := by
    intro m hm
    simpa using hothers m hm
  refine ⟨before, fin, after ++ later, ?_, ?_, hbefore, ?_⟩
  · rw [← hlater, hsplit, List.append_assoc, List.cons_append]
  · exact hinv.finalize fin (by rw [hsplit]; simp) (by simpa using hmine)
  · rw [hinv.forwarded, hsplit, List.filter_append,
      List.filter_eq_self.mpr fun m hm => by simpa using hbefore m hm]
    exact List.prefix_append _ _

end MainLoop

end EsalsaMpi
