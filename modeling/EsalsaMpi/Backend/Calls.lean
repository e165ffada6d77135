import EsalsaMpi.Backend.GroupCreate
import EsalsaMpi.Server.Announcing

/-!
# From the reply to the table

The last part of `EMPI_Comm_split`, `EMPI_Comm_create` and `EMPI_Comm_dup`, with
what the library of the cluster returned as a parameter: when the other
processes of the cluster are at different places of the program, what they pass
to the library is not there to be read.  `finishSplit_eq_conclude`,
`finishCreate_eq_conclude` and `finishDup_eq_conclude` connect this to the calls
with the library filled in.

`addError` names the three checks of `add_communicator`.
-/

namespace EsalsaMpi

/-- The checks at the start of `add_communicator`, by their messages: "Ran out
of communicator storage", "Attempting to overwrite reserved communicator" and
"Attempting to overwrite existing communicator". -/
inductive AddError where
  | outOfStorage
  | reserved
  | existing
deriving DecidableEq, Repr

namespace Process

/-- The check of `add_communicator` that fails, if any. -/
def addError (p : Process) (handle : Int) (initial : Bool) : Option AddError :=
  if handle < 0 ∨ (maxCommunicators : Int) ≤ handle then
    some .outOfStorage
  else if initial = false ∧ handle < 3 then
    some .reserved
  else if (p.comms handle.toNat).isSome then
    some .existing
  else
    none

/-- `add_communicator` goes through when no check fails. -/
theorem addCommunicator_eq_none_iff {p : Process} {handle : Int} {initial : Bool}
    {c : Communicator} :
    p.addCommunicator handle initial c = none ↔ (p.addError handle initial).isSome := by
  rw [addCommunicator, addError]
  split
  · simp
  · split
    · simp
    · split <;> simp

/-- The call that waits for the reply `body`, from the reply on.  `comm` is what
the library of the cluster returned, `none` standing for `MPI_COMM_NULL`; the
result is `none` for a process that has ended in `ERROR`. -/
def conclude (p : Process) (c : Communicator) (op : Server.Operation)
    (body : Server.ReplyBody) (comm : Option (List Pid)) : Option Process :=
  match op, body with
  | .split _ _, .split info _ _ =>
    match comm with
    | none => some p
    | some comm => p.createCommunicator info comm
  | .group pids, .group info type =>
    match p.localCreateRanks pids type, comm with
    | some _, some comm => p.createCommunicator info comm
    | _, _ => some p
  | .dup, .dup newComm =>
    comm.bind fun comm => p.addCommunicator newComm false { c with comm := comm }
  | _, _ => none

/-- What the library of the cluster returns: a split yields `MPI_COMM_NULL` for
the color `MPI_UNDEFINED` only, a create yields it outside of the group only. -/
def Returns (p : Process) (op : Server.Operation) (body : Server.ReplyBody)
    (comm : Option (List Pid)) : Prop :=
  match op, body with
  | .split _ _, .split _ color key =>
    comm = none ↔ (localColorKey color key).1 = mpiUndefined
  | .group pids, .group _ _ => comm = none ↔ p.pid ∉ pids
  | _, _ => comm ≠ none

theorem finishSplit_eq_conclude (p : Process) (c : Communicator) (info : Server.CommInfo)
    (args : Pid → Int × Int) (color key color' key' : Int) :
    p.finishSplit c info args =
      p.conclude c (.split color key) (.split info color' key')
        (pmpiCommSplit c.comm args p.pid) := by
  unfold finishSplit conclude
  cases pmpiCommSplit c.comm args p.pid <;> rfl

/-- The local split returns what `Returns` says. -/
theorem returns_pmpiCommSplit (p : Process) (c : Communicator) (info : Server.CommInfo)
    {args : Pid → Int × Int} {color key color' key' : Int}
    (hargs : args p.pid = localColorKey color' key') :
    p.Returns (.split color key) (.split info color' key') (pmpiCommSplit c.comm args p.pid) := by
  rw [Returns, pmpiCommSplit, hargs]
  split
  · simp [*]
  · simp [*]

theorem finishCreate_eq_conclude {p : Process} {c : Communicator} {pids : List Pid}
    {comm : Option (List Pid)} (hcomm : p.localCommCreate c pids = some comm)
    (info : Server.CommInfo) (type : Server.GroupType) :
    p.finishCreate c pids info type = p.conclude c (.group pids) (.group info type) comm := by
  unfold finishCreate conclude localCreateRanks
  rw [hcomm]
  by_cases hidle : type = .idle
  · simp [hidle]
  · unfold localCommCreate at hcomm
    simp only [if_neg hidle, Option.bind_some] at hcomm ⊢
    split at hcomm
    · rename_i hnone
      cases hcomm
      rw [if_pos hnone]
    · rename_i hsome
      rw [if_neg hsome]
      cases comm <;> rfl

theorem finishDup_eq_conclude (p : Process) (c : Communicator) (newComm : Int) :
    p.finishDup c newComm = p.conclude c .dup (.dup newComm) (some (pmpiCommDup c.comm)) := rfl

end Process

/-- **What a call does with its reply**: nothing, or one `add_communicator` for
the number in the reply. -/
theorem conclude_cases {p p' : Process} {c : Communicator} {op : Server.Operation}
    {body : Server.ReplyBody} {comm : Option (List Pid)}
    (h : p.conclude c op body comm = some p') :
    p' = p ∨ ∃ newComm c', body.newComm = some newComm ∧
      p.addCommunicator newComm false c' = some p' := by
  unfold Process.conclude at h
  split at h
  · split at h
    · exact Or.inl (Option.some.inj h).symm
    · exact Or.inr ⟨_, _, rfl, h⟩
  · split at h
    · exact Or.inr ⟨_, _, rfl, h⟩
    · exact Or.inl (Option.some.inj h).symm
  · obtain ⟨comm, rfl, h⟩ := Option.bind_eq_some_iff.mp h
    exact Or.inr ⟨_, _, rfl, h⟩
  · cases h

end EsalsaMpi
