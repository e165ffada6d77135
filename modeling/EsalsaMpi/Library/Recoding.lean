import EsalsaMpi.Library.Choreography

/-!
# Processes over other channels

A process can be run over other channels and with other messages: what it sends is put into the
other form, and what it receives is taken from it (`Proc.recode`).  It goes through the same
actions (`Follows.recode`), keeps to what it may (`Keeps.recode`), and is never done if it was not
(`Doomed.recode`).
-/

namespace ProcessNetwork

universe u

section Recode

variable {χ χ' μ μ' : Type*} {α σ : Type u}

/-- A process over the channels that `route` gives, with messages that `store` makes and `load`
reads; it fails on a message that is none of them. -/
def Proc.recode (route : χ → χ') (store : μ → μ') (load : μ' → Option μ) :
    Proc χ μ α → Proc χ' μ' α
  | .done a => .done a
  | .send c m next => .send (route c) (store m) (next.recode route store load)
  | .recv c next =>
    .recv (route c) fun m' => (load m').elim .fail fun m => (next m).recode route store load
  | .fail => .fail

/-- The action over the other channels. -/
def Action.recode (route : χ → χ') (store : μ → μ') : Action χ μ → Action χ' μ'
  | .send c m => .send (route c) (store m)
  | .recv c m => .recv (route c) (store m)

/-- A message over the other channels. -/
def recodeMessage (route : χ → χ') (store : μ → μ') (t : χ × μ) : χ' × μ' :=
  (route t.1, store t.2)

variable {route : χ → χ'} {store : μ → μ'} {load : μ' → Option μ} {x : Proc χ μ α}
  {tr : List (Action χ μ)} {a : α}

/-- **It goes through the same actions.** -/
theorem Follows.recode (hload : ∀ m, load (store m) = some m) (h : Follows x tr a) :
    Follows (x.recode route store load) (tr.map (Action.recode route store)) a := by
  induction h with
  | done a => exact .done a
  | send _ ih => exact .send ih
  | recv _ ih =>
      refine .recv ?_
      rw [hload]
      exact ih

/-- It keeps to what it may. -/
theorem Keeps.recode {maySend : χ' → μ' → Prop} {mayReceive : χ' → Prop}
    (h : Keeps (fun c m => maySend (route c) (store m)) (fun c => mayReceive (route c)) x) :
    Keeps maySend mayReceive (x.recode route store load) := by
  induction h with
  | done a => exact .done a
  | send hmay _ ih => exact .send hmay ih
  | recv hmay _ ih =>
      refine .recv hmay fun m' => ?_
      cases load m' with
      | none => exact .fail
      | some m => exact ih m
  | fail => exact .fail

/-- If it is never done, it is not over the other channels. -/
theorem Doomed.recode (h : Doomed x) : Doomed (x.recode route store load) := by
  induction h with
  | send _ ih => exact .send ih
  | recv _ ih =>
      refine .recv fun m' => ?_
      cases load m' with
      | none => exact .fail
      | some m => exact ih m
  | fail => exact .fail

section Parts

variable {ι : Type*} [DecidableEq ι] {writer reader : χ → ι} {writer' reader' : χ' → ι}

/-- What a process does for blocks of messages, over the other channels. -/
theorem partOf_recode (hwriter : ∀ c, writer' (route c) = writer c)
    (hreader : ∀ c, reader' (route c) = reader c) (p : ι) (blocks : List (List (χ × μ))) :
    partOf writer' reader' p (blocks.map (List.map (recodeMessage route store))) =
      (partOf writer reader p blocks).map (Action.recode route store) := by
  have hsends : ∀ b : List (χ × μ), sendsOf writer' p (b.map (recodeMessage route store)) =
      (sendsOf writer p b).map (Action.recode route store) := by
    intro b
    simp only [sendsOf, List.filter_map, List.map_map, Function.comp_def, recodeMessage, hwriter,
      Action.recode]
  have hreceives : ∀ b : List (χ × μ), receivesOf reader' p (b.map (recodeMessage route store)) =
      (receivesOf reader p b).map (Action.recode route store) := by
    intro b
    simp only [receivesOf, List.filter_map, List.map_map, Function.comp_def, recodeMessage,
      hreader, Action.recode]
  simp only [partOf, List.flatMap_map, List.map_flatMap, hsends, hreceives, List.map_append]

end Parts

end Recode

end ProcessNetwork
