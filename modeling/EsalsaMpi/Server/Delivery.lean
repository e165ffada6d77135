import EsalsaMpi.Server.Replies

/-!
# Delivering the requests of one operation

All members of a communicator without requests send one each.  Whatever the
order of arrival, the server ends up performing one operation on the requests
in the order of the ranks: `deliverAll_eq`.
-/

namespace EsalsaMpi

namespace Server

/-- The replies that a delivery causes. -/
def Outcome.replies : Outcome → List Reply
  | .executed _ replies => replies
  | _ => []

/-- The server receives requests one after the other. -/
def deliverAll (cfg : Config) (order : HashOrder) :
    State → List CommunicatorRequest → State × List Reply
  | s, [] => (s, [])
  | s, req :: reqs =>
    let delivered := deliverRequest cfg order s req
    let rest := deliverAll cfg order delivered.1 reqs
    (rest.1, delivered.2.replies ++ rest.2)

variable {cfg : Config} {order : HashOrder} {c : Communicator}
  {reqs : List CommunicatorRequest}

/-- The slots of a communicator that has stored `reqs`. -/
def Communicator.storeAll (c : Communicator) (reqs : List CommunicatorRequest) :
    Communicator := reqs.foldl Communicator.store c

theorem storeAll_concat (c : Communicator) (reqs : List CommunicatorRequest)
    (req : CommunicatorRequest) : c.storeAll (reqs ++ [req]) = (c.storeAll reqs).store req := by
  simp [Communicator.storeAll, List.foldl_append]

/-- Storing requests changes slots and counter only. -/
theorem storeAll_frame (c : Communicator) (reqs : List CommunicatorRequest) :
    (c.storeAll reqs).number = c.number ∧ (c.storeAll reqs).tables = c.tables ∧
      (c.storeAll reqs).messages.length = c.messages.length ∧
      (c.storeAll reqs).participants = c.participants + reqs.length := by
  induction reqs using List.reverseRecOn with
  | nil => exact ⟨rfl, rfl, rfl, rfl⟩
  | append_singleton reqs req ih =>
      obtain ⟨hnumber, htables, hlength, hparticipants⟩ := ih
      rw [storeAll_concat]
      refine ⟨hnumber, htables, ?_, ?_⟩
      · rw [Communicator.store, List.length_set]
        exact hlength
      · rw [List.length_append, List.length_singleton, ← Nat.add_assoc, ← hparticipants]
        rfl

/-- The slot of a rank that has not sent anything. -/
theorem storeAll_slot_of_ne {r : Nat} (hr : ∀ m ∈ reqs, m.rank ≠ r) :
    (c.storeAll reqs).messages[r]? = c.messages[r]? := by
  induction reqs using List.reverseRecOn with
  | nil => rfl
  | append_singleton reqs req ih =>
      have hne := hr req (by simp)
      rw [storeAll_concat, Communicator.store, List.getElem?_set_ne hne]
      exact ih fun m hm => hr m (List.mem_append_left _ hm)

/-- The slot of a rank that has sent its request. -/
theorem storeAll_slot_of_mem (hdistinct : (reqs.map (·.rank)).Nodup)
    (hranks : ∀ m ∈ reqs, m.rank < c.messages.length) {m : CommunicatorRequest}
    (hm : m ∈ reqs) : (c.storeAll reqs).messages[m.rank]? = some (some m) := by
  induction reqs using List.reverseRecOn with
  | nil => cases hm
  | append_singleton reqs req ih =>
      rw [List.map_append, List.nodup_append] at hdistinct
      rw [storeAll_concat, Communicator.store]
      rcases List.mem_append.mp hm with hm | hm
      · have hne : req.rank ≠ m.rank := by
          intro heq
          exact hdistinct.2.2 m.rank (List.mem_map_of_mem hm) req.rank (by simp) heq.symm
        rw [List.getElem?_set_ne hne]
        exact ih hdistinct.1 (fun m hm => hranks m (List.mem_append_left _ hm)) hm
      · rw [List.mem_singleton] at hm
        subst hm
        have hlt : m.rank < (c.storeAll reqs).messages.length := by
          rw [(storeAll_frame c reqs).2.2.1]
          exact hranks m (by simp)
        simp [hlt]

/-- One request of every rank of communicator `n`, in the order of the ranks. -/
structure IsRow (n : Nat) (row : List CommunicatorRequest) : Prop where
  communicator : ∀ m ∈ row, m.communicator = n
  rank : ∀ (r : Nat) m, row[r]? = some m → m.rank = r

/-- The ranks of a row. -/
theorem IsRow.map_rank {n : Nat} {row : List CommunicatorRequest} (h : IsRow n row) :
    row.map (·.rank) = List.range row.length := by
  apply List.ext_getElem?
  intro r
  rw [List.getElem?_map]
  cases hr : row[r]? with
  | none =>
      have hle := List.getElem?_eq_none_iff.mp hr
      rw [List.getElem?_eq_none (by simpa using hle)]
      rfl
  | some m =>
      have hlt := (List.getElem?_eq_some_iff.mp hr).1
      rw [List.getElem?_range hlt, Option.map_some, h.rank r m hr]

/-- The slots after all requests of a row, in any order. -/
theorem messages_storeAll_row {n : Nat} {row : List CommunicatorRequest} {t : Tables}
    (hrow : IsRow n row) (hlength : row.length = t.members.length) (hperm : reqs.Perm row) :
    ((Communicator.fresh n t).storeAll reqs).messages = row.map some := by
  have hlength' : (Communicator.fresh n t).messages.length = row.length := by
    rw [hlength]
    exact List.length_replicate
  have hdistinct : (reqs.map (·.rank)).Nodup := by
    rw [(hperm.map _).nodup_iff, hrow.map_rank]
    exact List.nodup_range
  have hranks : ∀ m ∈ reqs, m.rank < (Communicator.fresh n t).messages.length := by
    intro m hm
    obtain ⟨r, hr⟩ := List.getElem?_of_mem (hperm.mem_iff.mp hm)
    rw [hrow.rank r m hr, hlength']
    exact (List.getElem?_eq_some_iff.mp hr).1
  apply List.ext_getElem?
  intro r
  rw [List.getElem?_map]
  cases hr : row[r]? with
  | none =>
      have hle := List.getElem?_eq_none_iff.mp hr
      apply List.getElem?_eq_none
      rw [(storeAll_frame _ reqs).2.2.1, hlength']
      exact hle
  | some m =>
      have hm : m ∈ reqs := hperm.mem_iff.mpr (List.mem_of_getElem? hr)
      have hslot := storeAll_slot_of_mem hdistinct hranks hm
      rw [hrow.rank r m hr] at hslot
      exact hslot

/-- The communicator with all requests of `row` in its slots. -/
def Communicator.full (n : Nat) (t : Tables) (row : List CommunicatorRequest) :
    Communicator where
  number := n
  tables := t
  messages := row.map some
  participants := row.length

/-- All requests of a row, stored in any order. -/
theorem storeAll_row {n : Nat} {row : List CommunicatorRequest} {t : Tables}
    (hrow : IsRow n row) (hlength : row.length = t.members.length) (hperm : reqs.Perm row) :
    (Communicator.fresh n t).storeAll reqs = Communicator.full n t row := by
  have hmessages := messages_storeAll_row hrow hlength hperm
  obtain ⟨hnumber, htables, _, hparticipants⟩ := storeAll_frame (Communicator.fresh n t) reqs
  have hcount : ((Communicator.fresh n t).storeAll reqs).participants = row.length := by
    rw [hparticipants, hperm.length_eq]
    exact Nat.zero_add _
  generalize (Communicator.fresh n t).storeAll reqs = c at hmessages hnumber htables hcount ⊢
  obtain ⟨number, tables, messages, participants⟩ := c
  cases hnumber
  cases htables
  cases hmessages
  cases hcount
  rfl

/-- **One operation.**  The requests of a row arrive in any order; the server
performs one operation on the row. -/
theorem deliverAll_eq {s : State} {n : Nat} {t : Tables} {row : List CommunicatorRequest}
    (hlive : s[n]? = some (some (Communicator.fresh n t))) (hrow : IsRow n row)
    (hlength : row.length = t.members.length) (hperm : reqs.Perm row) :
    deliverAll cfg order s reqs =
      processRequest cfg order s (Communicator.full n t row) row := by
  have hlt : n < s.length := (List.getElem?_eq_some_iff.mp hlive).1
  have hself : s.set n (some (Communicator.fresh n t)) = s := by
    rw [← (List.getElem?_eq_some_iff.mp hlive).2]
    exact List.set_getElem_self hlt
  -- the state after the requests `done`, with `todo` still to come
  have hrun : ∀ todo done, done ++ todo = reqs → todo ≠ [] →
      deliverAll cfg order
          (s.set n (some ((Communicator.fresh n t).storeAll done))) todo =
        processRequest cfg order s (Communicator.full n t row) row := by
    intro todo
    induction todo with
    | nil =>
        intro done _ hne
        exact absurd rfl hne
    | cons req todo ih =>
        intro done hreqs _
        have hdistinct : (reqs.map (·.rank)).Nodup := by
          rw [(hperm.map _).nodup_iff, hrow.map_rank]
          exact List.nodup_range
        have hreq : req ∈ row := hperm.mem_iff.mp (hreqs ▸ by simp)
        obtain ⟨hnumber, htables, _, hparticipants⟩ :=
          storeAll_frame (Communicator.fresh n t) done
        have hlive' : (s.set n (some ((Communicator.fresh n t).storeAll done)))[
            req.communicator]? = some (some ((Communicator.fresh n t).storeAll done)) := by
          rw [hrow.communicator req hreq]
          simp [hlt]
        have hfree : ((Communicator.fresh n t).storeAll done).messages[req.rank]? =
            some none := by
          rw [storeAll_slot_of_ne]
          · obtain ⟨r, hr⟩ := List.getElem?_of_mem hreq
            have := (List.getElem?_eq_some_iff.mp hr).1
            rw [hrow.rank r req hr]
            exact List.getElem?_replicate_of_lt (by omega)
          · intro m hm heq
            rw [← hreqs, List.map_append, List.nodup_append] at hdistinct
            exact hdistinct.2.2 m.rank (List.mem_map_of_mem hm) req.rank (by simp) heq
        have hcount : (((Communicator.fresh n t).storeAll done).store req).participants =
            done.length + 1 := by
          rw [Communicator.store, hparticipants]
          exact congrArg (· + 1) (Nat.zero_add _)
        have hsize : ((Communicator.fresh n t).storeAll done).size = reqs.length := by
          rw [Communicator.size, htables, hperm.length_eq, hlength]
          rfl
        have htotal : reqs.length = done.length + 1 + todo.length := by
          rw [← hreqs, List.length_append, List.length_cons]
          omega
        rw [deliverAll, deliverRequest, hlive']
        simp only [Communicator.deliverRequest, hfree, hcount, hsize, hnumber]
        cases todo with
        | nil =>
            have hfull : ((Communicator.fresh n t).storeAll done).store req =
                Communicator.full n t row := by
              rw [← storeAll_concat, hreqs, storeAll_row hrow hlength hperm]
            have hreset : (s.set n (some ((Communicator.fresh n t).storeAll done))).set n
                (some (Communicator.full n t row).reset) = s := by
              rw [List.set_set]
              exact hself
            have hrequests : (Communicator.full n t row).requests = row := by
              simp [Communicator.full, Communicator.requests]
            have hdone : done.length + 1 = reqs.length := by
              rw [htotal]
              rfl
            rw [if_pos hdone, hfull]
            simp only [Communicator.fresh] at hreset ⊢
            rw [hrequests, hreset]
            simp [deliverAll, Outcome.replies]
        | cons next todo =>
            have hmore : ¬ done.length + 1 = reqs.length := by
              rw [htotal, List.length_cons]
              omega
            have hrest := ih (done ++ [req]) (by simp [← hreqs]) (List.cons_ne_nil _ _)
            rw [storeAll_concat] at hrest
            rw [if_neg hmore]
            simp only [Communicator.fresh, List.set_set] at hrest ⊢
            rw [hrest]
            simp [Outcome.replies]
  cases hcases : reqs with
  | nil =>
      have hempty : row = [] := List.perm_nil.mp (hcases ▸ hperm).symm
      rw [hempty]
      rfl
  | cons req rest =>
      have hstart := hrun reqs [] rfl (hcases ▸ List.cons_ne_nil _ _)
      rw [show (Communicator.fresh n t).storeAll [] = Communicator.fresh n t from rfl,
        hself] at hstart
      rw [← hcases]
      exact hstart

end Server

end EsalsaMpi
