import EsalsaMpi.Library.HandleTables

/-!
# The tables behind the handles

Requests, datatypes, operations, files and infos are found under `int` handles, each kind in
an array of its own.  A request and a datatype take the first free place (a datatype behind
the predefined ones), an operation the next place of a counter that only goes up, a file and
an info the next place until all have been used and then the first free one.  The checks of
the handles are written once for each function, and two of them let the handle through that
is equal to the length of the array: `handle_to_datatype` reads `all_types[MAX_DATATYPES]`,
and `create_operation` reads `ops[MAX_OPERATIONS]` when all places have been given away.

A run of calls is as safe as it should be if and only if no call gets there
(`safe_iff_not_overruns`): every index is inside of its array, live objects have distinct
handles, a lookup returns the live object with the handle and no other, and otherwise `NULL`,
or the process ends with an error message where errors are fatal.
-/

namespace EsalsaMpi

namespace Handles

open HandleTables

def maxRequests : Nat := 1024

def maxOperations : Nat := 256

def maxDatatypes : Nat := 10240

def maxFiles : Nat := 64

def maxInfos : Nat := 64

/-- `EMPI_DEFINED_DATATYPES`. -/
def empiDefinedDatatypes : Nat := 42

/-- `EMPI_FILE_NULL`, which is `EMPI_INFO_NULL` as well. -/
def empiFileNull : Int := -1

def empiSuccess : Int := 0

def empiErrType : Int := 3

def empiErrIntern : Int := 17

/-- What comes of a call: it returns, the process ends with an error message, or an index is
outside of its array. -/
inductive Outcome (ρ : Type) where
  | returned (r : ρ)
  | ended
  | outOfBounds

/-- What is done when a function has returned. -/
def Outcome.andThen {ρ ρ' : Type} : Outcome ρ → (ρ → Outcome ρ') → Outcome ρ'
  | .returned r, f => f r
  | .ended, _ => .ended
  | .outOfBounds, _ => .outOfBounds

@[simp] theorem Outcome.andThen_returned {ρ ρ' : Type} (r : ρ) (f : ρ → Outcome ρ') :
    (Outcome.returned r).andThen f = f r := rfl

/-- What `malloc` returned, the handle and the other fields of an object. -/
structure Object (κ : Type) where
  address : Nat
  handle : Int
  fields : κ

/-- The fields of a `request`, with pointers as their addresses. -/
structure RequestFields where
  flags : Int
  buf : Nat
  type : Nat
  count : Int
  sourceOrDest : Int
  tag : Int
  comm : Nat

/-- The fields of an `operation`. -/
structure OperationFields where
  function : Nat
  op : Nat
  commute : Int

/-- The fields of a `file`. -/
structure FileFields where
  comm : Nat
  file : Nat

/-- An array and the counter beside it. -/
structure Counted (κ : Type) (n : Nat) where
  slots : Slots (Object κ) n
  next : Nat

section Source

variable (fatal : Bool) {κ ρ α : Type} {n : Nat}

/-- `ERROR`, after which `r` is returned unless errors are fatal. -/
def error (r : ρ) : Outcome ρ := if fatal then .ended else .returned r

/-- `IERROR`, which is always fatal. -/
def internalError : Outcome ρ := .ended

/-- Reading an array. -/
def read (t : Slots α n) (i : Int) : Outcome (Option α) :=
  match place? n i with
  | some p => .returned (t p)
  | none => .outOfBounds

/-- Writing an array. -/
def write (t : Slots α n) (i : Int) (x : Option α) : Outcome (Slots α n) :=
  match place? n i with
  | some p => .returned (Function.update t p x)
  | none => .outOfBounds

/-- The lookups but for that of a datatype. -/
def lookupBelow (t : Slots α n) (handle : Int) : Outcome (Option α) :=
  if handle < 0 ∨ (n : Int) ≤ handle then error fatal none else read t handle

/-! ### Requests -/

abbrev Requests := Slots (Object RequestFields) maxRequests

/-- `add_request`, with `none` for -1. -/
def addRequest (reqs : Requests) : Option (Fin maxRequests) := firstFree reqs 0

def createRequest (malloc : Option Nat) (fields : RequestFields) (reqs : Requests) :
    Outcome (Option (Object RequestFields) × Requests) :=
  match malloc with
  | none => error fatal (none, reqs)
  | some address =>
    match addRequest reqs with
    | none => error fatal (none, reqs)
    | some p =>
      let r : Object RequestFields := ⟨address, p.val, fields⟩
      .returned (some r, Function.update reqs p (some r))

def handleToRequest (reqs : Requests) (handle : Int) : Outcome (Option (Object RequestFields)) :=
  lookupBelow fatal reqs handle

def freeRequest (reqs : Requests) : Option (Object RequestFields) → Outcome Requests
  | none => .returned reqs
  | some r => write reqs r.handle none

/-! ### Datatypes -/

abbrev Datatypes := Slots (Object Nat) maxDatatypes

def internAddDatatype (malloc : Option Nat) (handle : Int) (type : Nat) (allTypes : Datatypes) :
    Outcome (Int × Datatypes) :=
  if handle < 0 ∨ (maxDatatypes : Int) ≤ handle then
    error fatal (empiErrIntern, allTypes)
  else
    (read allTypes handle).andThen fun
      | some _ => error fatal (empiErrIntern, allTypes)
      | none =>
        match malloc with
        | none => error fatal (empiErrIntern, allTypes)
        | some address =>
          (write allTypes handle (some ⟨address, handle, type⟩)).andThen fun allTypes =>
            .returned (empiSuccess, allTypes)

def addDatatype (malloc : Option Nat) (type : Nat) (allTypes : Datatypes) :
    Outcome (Option (Object Nat) × Datatypes) :=
  match firstFree allTypes empiDefinedDatatypes with
  | none => error fatal (none, allTypes)
  | some p =>
    (internAddDatatype fatal malloc p.val type allTypes).andThen fun (err, allTypes) =>
      if err ≠ empiSuccess then error fatal (none, allTypes)
      else .returned (allTypes p, allTypes)

/-- The handle `MAX_DATATYPES` passes the first check. -/
def handleToDatatype (allTypes : Datatypes) (handle : Int) : Outcome (Option (Object Nat)) :=
  if handle < 0 ∨ (maxDatatypes : Int) < handle then
    error fatal none
  else
    (read allTypes handle).andThen fun
      | none => error fatal none
      | some d => .returned (some d)

def freeDatatype (allTypes : Datatypes) : Option (Object Nat) → Outcome (Int × Datatypes)
  | none => error fatal (empiErrType, allTypes)
  | some type =>
    if type.handle < 0 ∨ (maxDatatypes : Int) < type.handle then
      error fatal (empiErrType, allTypes)
    else if type.handle < empiDefinedDatatypes then
      error fatal (empiErrType, allTypes)
    else
      (read allTypes type.handle).andThen fun slot =>
        if slot.map (·.address) ≠ some type.address then
          error fatal (empiErrType, allTypes)
        else
          (write allTypes type.handle none).andThen fun allTypes =>
            .returned (empiSuccess, allTypes)

/-! ### Operations -/

abbrev Operations := Counted OperationFields maxOperations

/-- The handle `MAX_OPERATIONS` passes the first check. -/
def initOperation (malloc : Option Nat) (handle : Int) (fields : OperationFields)
    (t : Operations) : Outcome (Int × Operations) :=
  if handle < 0 ∨ (maxOperations : Int) < handle then
    internalError
  else
    (read t.slots handle).andThen fun
      | some _ => internalError
      | none =>
        match malloc with
        | none => internalError
        | some address =>
          (write t.slots handle (some ⟨address, handle, fields⟩)).andThen fun ops =>
            .returned (empiSuccess,
              ⟨ops, if (t.next : Int) ≤ handle then handle.toNat + 1 else t.next⟩)

def handleToOperation (t : Operations) (handle : Int) :
    Outcome (Option (Object OperationFields)) :=
  lookupBelow fatal t.slots handle

def createOperation (malloc : Option Nat) (fields : OperationFields) (t : Operations) :
    Outcome (Option (Object OperationFields) × Operations) :=
  (initOperation malloc t.next fields { t with next := t.next + 1 }).andThen fun (err, t') =>
    if err ≠ empiSuccess then error fatal (none, t')
    else (read t'.slots t.next).andThen fun o => .returned (o, t')

/-! ### Files and infos -/

/-- The next place, or the first free one when all have been used. -/
def Counted.choose (t : Counted κ n) : Option Int :=
  if t.next < n then some t.next else (firstFree t.slots 0).map fun p => (p.val : Int)

/-- `add_file` and `add_info`; the fields are missing if the object of the MPI library is its
null object. -/
def addCounted (malloc : Option Nat) (fields : Option κ) (t : Counted κ n) :
    Outcome (Option (Object κ) × Counted κ n) :=
  match fields with
  | none => .returned (none, t)
  | some fields =>
    match t.choose with
    | none => internalError
    | some handle =>
      match malloc with
      | none => internalError
      | some address =>
        (write t.slots handle (some ⟨address, handle, fields⟩)).andThen fun slots =>
          (read slots handle).andThen fun x =>
            .returned (x, ⟨slots, if (t.next : Int) ≤ handle then t.next + 1 else t.next⟩)

/-- `remove_file` and `remove_info`. -/
def removeCounted (handle : Int) (t : Counted κ n) : Outcome (Counted κ n) :=
  if handle = empiFileNull then
    .returned t
  else if handle < 0 ∨ (n : Int) ≤ handle then
    internalError
  else
    (read t.slots handle).andThen fun
      | none => internalError
      | some _ => (write t.slots handle none).andThen fun slots => .returned { t with slots }

abbrev Files := Counted FileFields maxFiles

def addFile (malloc : Option Nat) (c : Nat) (f : Option Nat) (t : Files) :
    Outcome (Option (Object FileFields) × Files) :=
  addCounted malloc (f.map fun f => ⟨c, f⟩) t

def handleToFile (t : Files) (handle : Int) : Outcome (Option (Object FileFields)) :=
  lookupBelow fatal t.slots handle

def removeFile (f : Int) (t : Files) : Outcome Files := removeCounted f t

abbrev Infos := Counted Nat maxInfos

def addInfo (malloc : Option Nat) (i : Option Nat) (t : Infos) :
    Outcome (Option (Object Nat) × Infos) := addCounted malloc i t

def handleToInfo (t : Infos) (handle : Int) : Outcome (Option (Object Nat)) :=
  lookupBelow fatal t.slots handle

def removeInfo (i : Int) (t : Infos) : Outcome Infos := removeCounted i t

end Source

/-! ### Calls -/

inductive Kind where
  | request
  | datatype
  | operation
  | file
  | info
deriving DecidableEq

/-- The fields of an object of this kind. -/
abbrev Fields : Kind → Type
  | .request => RequestFields
  | .datatype => Nat
  | .operation => OperationFields
  | .file => FileFields
  | .info => Nat

/-- The table of this kind. -/
abbrev Table : Kind → Type
  | .request => Requests
  | .datatype => Datatypes
  | .operation => Operations
  | .file => Files
  | .info => Infos

/-- What an object is made of. -/
abbrev Argument : Kind → Type
  | .request => RequestFields
  | .datatype => Nat
  | .operation => OperationFields
  | .file => Nat × Option Nat
  | .info => Option Nat

/-- A call with what `malloc` returns in it.  There is no function that frees an operation. -/
inductive Call where
  | create (k : Kind) (malloc : Option Nat) (argument : Argument k)
  | free (k : Kind) (hk : k ≠ .operation) (handle : Int)
  | lookup (k : Kind) (handle : Int)

section Calls

variable (fatal : Bool)

def create : (k : Kind) → Option Nat → Argument k → Table k →
    Outcome (Option (Object (Fields k)) × Table k)
  | .request, malloc, fields, t => createRequest fatal malloc fields t
  | .datatype, malloc, type, t => addDatatype fatal malloc type t
  | .operation, malloc, fields, t => createOperation fatal malloc fields t
  | .file, malloc, (c, f), t => addFile malloc c f t
  | .info, malloc, i, t => addInfo malloc i t

def lookup : (k : Kind) → Int → Table k → Outcome (Option (Object (Fields k)))
  | .request, handle, t => handleToRequest fatal t handle
  | .datatype, handle, t => handleToDatatype fatal t handle
  | .operation, handle, t => handleToOperation fatal t handle
  | .file, handle, t => handleToFile fatal t handle
  | .info, handle, t => handleToInfo fatal t handle

/-- A request and a datatype are looked up before they are freed. -/
def free : (k : Kind) → k ≠ .operation → Int → Table k → Outcome (Table k)
  | .request, _, handle, t => (handleToRequest fatal t handle).andThen (freeRequest t)
  | .datatype, _, handle, t =>
    (handleToDatatype fatal t handle).andThen fun type =>
      (freeDatatype fatal t type).andThen fun (_, t) => .returned t
  | .operation, hk, _, _ => absurd rfl hk
  | .file, _, handle, t => removeFile handle t
  | .info, _, handle, t => removeInfo handle t

/-- The tables, and beside them the objects that have been made and not been freed. -/
structure Run where
  tables : (k : Kind) → Table k
  live : (k : Kind) → List (Object (Fields k))

/-- What is live after the objects with a handle have been freed.  The predefined datatypes
are never freed. -/
def released (k : Kind) (handle : Int) (live : List (Object (Fields k))) :
    List (Object (Fields k)) :=
  if k = .datatype ∧ handle < empiDefinedDatatypes then live
  else live.filter fun x => x.handle ≠ handle

def Run.set (r : Run) (k : Kind) (t : Table k) (live : List (Object (Fields k))) : Run :=
  ⟨Function.update r.tables k t, Function.update r.live k live⟩

/-- The run after a call that returns. -/
def Run.after (r : Run) : Call → Option Run
  | .create k malloc argument =>
    match create fatal k malloc argument (r.tables k) with
    | .returned (x, t) => some (r.set k t (r.live k ++ x.toList))
    | _ => none
  | .free k hk handle =>
    match free fatal k hk handle (r.tables k) with
    | .returned t => some (r.set k t (released k handle (r.live k)))
    | _ => none
  | .lookup k handle =>
    match lookup fatal k handle (r.tables k) with
    | .returned _ => some r
    | _ => none

/-- Every index that a call uses is inside of its array. -/
def Run.Inside (r : Run) : Call → Prop
  | .create k malloc argument => create fatal k malloc argument (r.tables k) ≠ .outOfBounds
  | .free k hk handle => free fatal k hk handle (r.tables k) ≠ .outOfBounds
  | .lookup k handle => lookup fatal k handle (r.tables k) ≠ .outOfBounds

/-- Live objects have distinct handles. -/
def Run.Distinct (r : Run) : Prop := ∀ k, ((r.live k).map Object.handle).Nodup

/-- **A safe call**: its indices are inside of the arrays, the live objects have distinct
handles before and after it, and if it is a lookup it returns the live object with the handle,
or `NULL` if there is none.  In place of `NULL` the process may end if errors are fatal. -/
structure Run.Safe (r : Run) (call : Call) : Prop where
  inside : r.Inside fatal call
  before : r.Distinct
  after : ∀ r', r.after fatal call = some r' → r'.Distinct
  found : ∀ k handle, call = .lookup k handle → ∀ x ∈ r.live k, x.handle = handle →
    lookup fatal k handle (r.tables k) = .returned (some x)
  missing : ∀ k handle, call = .lookup k handle → (∀ x ∈ r.live k, x.handle ≠ handle) →
    lookup fatal k handle (r.tables k) = .returned none ∨
      fatal = true ∧ lookup fatal k handle (r.tables k) = .ended

/-- A property of every call of a sequence, in the state in which it is made.  The calls after
one that does not return are not made. -/
def Throughout (P : Run → Call → Prop) : Run → List Call → Prop
  | _, [] => True
  | r, call :: calls => P r call ∧ ∀ r', r.after fatal call = some r' → Throughout P r' calls

/-- A call with an index that its check lets through: the datatype `MAX_DATATYPES` is looked
up, also to be freed, or an operation is created when all places have been given away. -/
def Run.Overruns (r : Run) : Call → Prop
  | .create .operation _ _ => (r.tables .operation).next = maxOperations
  | .free .datatype _ handle => handle = maxDatatypes
  | .lookup .datatype handle => handle = maxDatatypes
  | _ => False

end Calls

/-! ### The start -/

/-- What the predefined objects are made of, by handle, and what `malloc` returns for them. -/
structure Predefined where
  operation : Nat → OperationFields
  mallocOperation : Nat → Option Nat
  datatype : Nat → Nat
  mallocDatatype : Nat → Option Nat

/-- The calls in `init_operations`. -/
def initOperationsFrom (d : Predefined) : List Nat → Operations → Outcome (Int × Operations)
  | [], t => .returned (empiSuccess, t)
  | handle :: handles, t =>
    (initOperation (d.mallocOperation handle) handle (d.operation handle) t).andThen
      fun (err, t) =>
        if err ≠ empiSuccess then .returned (err, t) else initOperationsFrom d handles t

/-- From `EMPI_OP_NULL` to `EMPI_LXOR`. -/
def predefinedOperations : List Nat := List.range 13

def initOperations (d : Predefined) : Outcome (Int × Operations) :=
  initOperationsFrom d predefinedOperations ⟨fun _ => none, 0⟩

/-- The calls in `init_datatypes`. -/
def initDatatypesFrom (fatal : Bool) (d : Predefined) :
    List Nat → Datatypes → Outcome (Int × Datatypes)
  | [], t => .returned (empiSuccess, t)
  | handle :: handles, t =>
    (internAddDatatype fatal (d.mallocDatatype handle) handle (d.datatype handle) t).andThen
      fun (err, t) =>
        if err ≠ empiSuccess then error fatal (err, t) else initDatatypesFrom fatal d handles t

/-- From `EMPI_DATATYPE_NULL` to `EMPI_2INTEGER`, without `EMPI_REAL2`. -/
def predefinedDatatypes : List Nat := (List.range empiDefinedDatatypes).filter (· ≠ 35)

def initDatatypes (fatal : Bool) (d : Predefined) : Outcome (Int × Datatypes) :=
  initDatatypesFrom fatal d predefinedDatatypes fun _ => none

/-- Objects that have been made with these handles. -/
def made {κ : Type} (malloc : Nat → Option Nat) (fields : Nat → κ) (handles : List Nat) :
    List (Object κ) :=
  handles.filterMap fun h => (malloc h).map fun address => ⟨address, h, fields h⟩

/-- The tables when the calls begin, if the process gets there: the predefined objects are
live. -/
def start (fatal : Bool) (d : Predefined) : Option Run :=
  match initOperations d, initDatatypes fatal d with
  | .returned (0, ops), .returned (0, allTypes) =>
    some {
      tables := fun
        | .request => fun _ => none
        | .datatype => allTypes
        | .operation => ops
        | .file => ⟨fun _ => none, 0⟩
        | .info => ⟨fun _ => none, 0⟩
      live := fun
        | .request => []
        | .datatype => made d.mallocDatatype d.datatype predefinedDatatypes
        | .operation => made d.mallocOperation d.operation predefinedOperations
        | .file => []
        | .info => [] }
  | _, _ => none

/-- A property of every call of a sequence that is made after the start. -/
def FromStart (fatal : Bool) (d : Predefined) (P : Run → Call → Prop) (calls : List Call) :
    Prop := ∀ r, start fatal d = some r → Throughout fatal P r calls

/-! ### What a call keeps -/

/-- A table with a counter has nothing from the counter on. -/
structure Counts {κ : Type} {n : Nat} (t : Counted κ n) (live : List (Object κ)) : Prop where
  holds : Holds Object.handle t.slots live
  next_le : t.next ≤ n
  unused : ∀ p, t.next ≤ p.val → t.slots p = none

/-- The invariant of a table. -/
def Keeps : (k : Kind) → Table k → List (Object (Fields k)) → Prop
  | .request, t, live => Holds Object.handle t live
  | .datatype, t, live => Holds Object.handle t live
  | .operation, t, live => Counts t live
  | .file, t, live => Counts t live
  | .info, t, live => Counts t live

/-- A call that makes an object keeps `I`, where the object it returns is live then. -/
def Makes {κ τ : Type} (I : τ → List (Object κ) → Prop) (live : List (Object κ)) :
    Outcome (Option (Object κ) × τ) → Prop
  | .returned (x, t) => I t (live ++ x.toList)
  | .ended => True
  | .outOfBounds => False

/-- A call that frees an object keeps `I`. -/
def Frees {κ τ : Type} (I : τ → List (Object κ) → Prop) (live : List (Object κ)) :
    Outcome τ → Prop
  | .returned t => I t live
  | .ended => True
  | .outOfBounds => False

/-- A call that looks an object up finds the live one with the handle. -/
def Finds {κ : Type} (fatal : Bool) (live : List (Object κ)) (handle : Int) :
    Outcome (Option (Object κ)) → Prop
  | .returned (some x) => x ∈ live ∧ x.handle = handle
  | .returned none => ∀ x ∈ live, x.handle ≠ handle
  | .ended => fatal = true ∧ ∀ x ∈ live, x.handle ≠ handle
  | .outOfBounds => False

section Steps

variable (fatal : Bool) {κ τ : Type} {n : Nat} {live : List (Object κ)} {handle : Int}
  {I : τ → List (Object κ) → Prop}

/-- An error message leaves the table as it is. -/
theorem makes_error {t : τ} (h : I t live) : Makes I live (error fatal (none, t)) := by
  unfold error
  split
  · trivial
  · show I t (live ++ [])
    rw [List.append_nil]
    exact h

theorem finds_error (h : ∀ x ∈ live, x.handle ≠ handle) :
    Finds fatal live handle (error fatal none) := by
  unfold error
  split
  · rename_i hfatal
    exact ⟨hfatal, h⟩
  · exact h

/-- Only handles inside of the array are live. -/
theorem handle_ne_of_outside {t : Slots (Object κ) n} (h : Holds Object.handle t live)
    (hout : handle < 0 ∨ (n : Int) ≤ handle) : ∀ x ∈ live, x.handle ≠ handle := by
  intro x hx heq
  obtain ⟨p, hp, _⟩ := h.found hx
  rw [heq, place?_eq_none_iff.mpr hout] at hp
  cases hp

theorem not_outside (p : Fin n) : ¬ ((p.val : Int) < 0 ∨ (n : Int) ≤ p.val) := by
  have := p.isLt
  omega

theorem read_place {α : Type} {t : Slots α n} {p : Fin n} (h : place? n handle = some p) :
    read t handle = .returned (t p) := by rw [read, h]

theorem write_place {α : Type} {t : Slots α n} {p : Fin n} (h : place? n handle = some p)
    (x : Option α) : write t handle x = .returned (Function.update t p x) := by rw [write, h]

/-- What stands at a handle inside of the array. -/
theorem read_cases {t : Slots (Object κ) n} (h : Holds Object.handle t live)
    (hin : ¬ (handle < 0 ∨ (n : Int) ≤ handle)) : ∃ p, place? n handle = some p ∧
      ((t p = none ∧ read t handle = .returned none ∧ ∀ x ∈ live, x.handle ≠ handle) ∨
        ∃ x, t p = some x ∧ read t handle = .returned (some x) ∧ x ∈ live ∧
          x.handle = handle) := by
  cases hplace : place? n handle with
  | none => exact absurd (place?_eq_none_iff.mp hplace) hin
  | some p =>
      refine ⟨p, rfl, ?_⟩
      have hread := @read_place n handle _ t p hplace
      cases hslot : t p with
      | none =>
          refine Or.inl ⟨rfl, by rw [hread, hslot], fun x hx heq => ?_⟩
          obtain ⟨q, hq, hx⟩ := h.found hx
          rw [heq, hplace] at hq
          cases hq
          rw [hslot] at hx
          cases hx
      | some x =>
          obtain ⟨hmem, hhandle⟩ := h.mem_of_place hplace hslot
          exact Or.inr ⟨x, rfl, by rw [hread, hslot], hmem, hhandle⟩

/-- The lookups but for that of a datatype. -/
theorem finds_lookupBelow {t : Slots (Object κ) n} (h : Holds Object.handle t live)
    (handle : Int) : Finds fatal live handle (lookupBelow fatal t handle) := by
  unfold lookupBelow
  split
  · rename_i hout
    exact finds_error fatal (handle_ne_of_outside h hout)
  · rename_i hin
    obtain ⟨p, _, ⟨_, hread, hnone⟩ | ⟨x, _, hread, hx⟩⟩ := read_cases h hin
    · rw [hread]
      exact hnone
    · rw [hread]
      exact hx

theorem finds_handleToDatatype {t : Datatypes} {live : List (Object Nat)}
    (h : Holds Object.handle t live) (hmax : handle ≠ maxDatatypes) :
    Finds fatal live handle (handleToDatatype fatal t handle) := by
  unfold handleToDatatype
  split
  · rename_i hout
    exact finds_error fatal (handle_ne_of_outside h (by omega))
  · rename_i hin
    have hin' : ¬ (handle < 0 ∨ (maxDatatypes : Int) ≤ handle) := by omega
    obtain ⟨p, _, ⟨_, hread, hnone⟩ | ⟨x, _, hread, hx⟩⟩ := read_cases h hin'
    · rw [hread]
      exact finds_error fatal hnone
    · rw [hread]
      exact hx

/-! ### Objects that are made -/

theorem makes_createRequest {t : Requests} {live : List (Object RequestFields)}
    (h : Holds Object.handle t live) (malloc : Option Nat) (fields : RequestFields) :
    Makes (Holds Object.handle) live (createRequest fatal malloc fields t) := by
  unfold createRequest
  cases malloc with
  | none => exact makes_error fatal h
  | some address =>
      cases hfree : addRequest t with
      | none => exact makes_error fatal h
      | some p => exact h.add (firstFree_spec hfree).2 rfl

/-- `intern_add_datatype` at a free place of the array. -/
theorem internAddDatatype_eq {t : Datatypes} {p : Fin maxDatatypes} (hp : t p = none)
    (malloc : Option Nat) (type : Nat) :
    internAddDatatype fatal malloc p.val type t =
      match malloc with
      | none => error fatal (empiErrIntern, t)
      | some address =>
        .returned (empiSuccess, Function.update t p (some ⟨address, p.val, type⟩)) := by
  have hplace : place? maxDatatypes (p.val : Int) = some p := place?_natCast p.isLt
  unfold internAddDatatype
  rw [if_neg (not_outside p), read_place hplace, hp, Outcome.andThen_returned]
  cases malloc with
  | none => rfl
  | some address =>
      simp only
      rw [write_place hplace, Outcome.andThen_returned]

theorem makes_addDatatype {t : Datatypes} {live : List (Object Nat)}
    (h : Holds Object.handle t live) (malloc : Option Nat) (type : Nat) :
    Makes (Holds Object.handle) live (addDatatype fatal malloc type t) := by
  unfold addDatatype
  cases hfree : firstFree t empiDefinedDatatypes with
  | none => exact makes_error fatal h
  | some p =>
      have hp := (firstFree_spec hfree).2
      simp only [internAddDatatype_eq fatal hp]
      cases malloc with
      | none =>
          cases fatal with
          | false => exact @makes_error false _ _ _ (Holds Object.handle) t h
          | true => trivial
      | some address =>
          simp only [Outcome.andThen_returned, ne_eq, not_true_eq_false, if_false, Function.update_self]
          exact h.add hp rfl

/-- A new object at the place of the counter. -/
theorem Counts.add_next {t : Counted κ n} (h : Counts t live) (hlt : t.next < n)
    {x : Object κ} (hx : x.handle = t.next) :
    Counts ⟨Function.update t.slots ⟨t.next, hlt⟩ (some x), t.next + 1⟩ (live ++ [x]) := by
  refine ⟨h.holds.add (h.unused _ (Nat.le_refl _)) hx, hlt, fun p hp => ?_⟩
  have hne : p ≠ ⟨t.next, hlt⟩ := by
    intro heq
    rw [heq] at hp
    exact absurd hp (by simp)
  show Function.update t.slots ⟨t.next, hlt⟩ (some x) p = none
  rw [Function.update_of_ne hne]
  exact h.unused p (by simp only at hp; omega)

/-- A new object at a free place before the counter. -/
theorem Counts.add_free {t : Counted κ n} (h : Counts t live) {p : Fin n}
    (hp : t.slots p = none) (hlt : p.val < t.next) {x : Object κ} (hx : x.handle = p.val) :
    Counts ⟨Function.update t.slots p (some x), t.next⟩ (live ++ [x]) := by
  refine ⟨h.holds.add hp hx, h.next_le, fun q hq => ?_⟩
  have hne : q ≠ p := by
    rintro rfl
    exact absurd hq (by simp only; omega)
  show Function.update t.slots p (some x) q = none
  rw [Function.update_of_ne hne]
  exact h.unused q hq

/-- `init_operation` at the place of the counter, whether it has gone up already or not. -/
theorem initOperation_cases {t : Operations} {live : List (Object OperationFields)}
    (h : Counts t live) (hlt : t.next < maxOperations) (malloc : Option Nat)
    (fields : OperationFields) {next : Nat} (hnext : next = t.next ∨ next = t.next + 1) :
    (malloc = none ∧ initOperation malloc t.next fields { t with next } = .ended) ∨
      ∃ address, malloc = some address ∧
        initOperation malloc t.next fields { t with next } = .returned (empiSuccess,
          ⟨Function.update t.slots ⟨t.next, hlt⟩ (some ⟨address, t.next, fields⟩),
            t.next + 1⟩) := by
  have hplace := place?_natCast hlt
  have hfree := h.unused ⟨t.next, hlt⟩ (Nat.le_refl _)
  unfold initOperation
  rw [if_neg (by omega), read_place hplace]
  simp only [Outcome.andThen_returned, hfree]
  cases malloc with
  | none => exact Or.inl ⟨rfl, rfl⟩
  | some address =>
      refine Or.inr ⟨address, rfl, ?_⟩
      simp only [write_place hplace, Int.toNat_natCast]
      rcases hnext with rfl | rfl
      · rw [if_pos (Int.le_refl _), Outcome.andThen_returned]
      · rw [if_neg (by omega), Outcome.andThen_returned]

theorem makes_createOperation {t : Operations} {live : List (Object OperationFields)}
    (h : Counts t live) (hnext : t.next ≠ maxOperations) (malloc : Option Nat)
    (fields : OperationFields) : Makes Counts live (createOperation fatal malloc fields t) := by
  have hlt : t.next < maxOperations := Nat.lt_of_le_of_ne h.next_le hnext
  unfold createOperation
  rcases initOperation_cases h hlt malloc fields (Or.inr rfl) with ⟨_, hend⟩ | ⟨a, _, hok⟩
  · rw [hend]
    trivial
  · rw [hok]
    simp only [Outcome.andThen_returned, ne_eq, not_true_eq_false, if_false,
      read_place (place?_natCast hlt), Function.update_self]
    exact h.add_next hlt rfl

/-- Where the next object of a table with a counter comes to. -/
theorem Counts.choose_cases {t : Counted κ n} (h : Counts t live) {i : Int}
    (hi : t.choose = some i) : ∃ p : Fin n, i = p.val ∧ t.slots p = none ∧
      (p.val = t.next ∨ p.val < t.next) := by
  unfold Counted.choose at hi
  split at hi
  · rename_i hlt
    cases hi
    exact ⟨⟨t.next, hlt⟩, rfl, h.unused _ (Nat.le_refl _), Or.inl rfl⟩
  · rename_i hge
    obtain ⟨p, hp, rfl⟩ := Option.map_eq_some_iff.mp hi
    exact ⟨p, rfl, (firstFree_spec hp).2, Or.inr (by have := p.isLt; omega)⟩

theorem makes_addCounted {t : Counted κ n} (h : Counts t live) (malloc : Option Nat)
    (fields : Option κ) : Makes Counts live (addCounted malloc fields t) := by
  unfold addCounted
  cases fields with
  | none =>
      show Counts t (live ++ [])
      rw [List.append_nil]
      exact h
  | some fields =>
      cases hchoose : t.choose with
      | none => trivial
      | some i =>
          cases malloc with
          | none => trivial
          | some address =>
              obtain ⟨p, rfl, hp, hplace⟩ := h.choose_cases hchoose
              have hplaced : place? n (p.val : Int) = some p := place?_natCast p.isLt
              simp only [write_place hplaced, Outcome.andThen_returned, read_place hplaced,
                Function.update_self]
              rcases hplace with hnext | hlt
              · rw [if_pos (by omega)]
                have hp' : p = ⟨t.next, hnext ▸ p.isLt⟩ := Fin.ext hnext
                have hadd := h.add_next (hnext ▸ p.isLt) (x := ⟨address, p.val, fields⟩)
                  (by simp only [hnext])
                rw [← hp'] at hadd
                exact hadd
              · rw [if_neg (by omega)]
                exact h.add_free hp hlt rfl

/-! ### Objects that are freed -/

theorem Counts.remove {t : Counted κ n} (h : Counts t live) {p : Fin n}
    (hp : place? n handle = some p) :
    Counts { t with slots := Function.update t.slots p none }
      (live.filter fun x => x.handle ≠ handle) := by
  refine ⟨h.holds.remove hp, h.next_le, fun q hq => ?_⟩
  show Function.update t.slots p none q = none
  by_cases hqp : q = p
  · rw [hqp, Function.update_self]
  · rw [Function.update_of_ne hqp]
    exact h.unused q hq

theorem frees_removeCounted {t : Counted κ n} (h : Counts t live) (handle : Int) :
    Frees Counts (live.filter fun x => x.handle ≠ handle) (removeCounted handle t) := by
  unfold removeCounted
  split
  · rename_i hnull
    have hnone := handle_ne_of_outside h.holds (show handle < 0 ∨ (n : Int) ≤ handle from
      Or.inl (by rw [hnull]; decide))
    show Counts t _
    rw [Holds.filter_eq hnone]
    exact h
  · split
    · trivial
    · rename_i hin
      obtain ⟨p, hp, ⟨_, hread, _⟩ | ⟨x, _, hread, _⟩⟩ := read_cases h.holds hin
      · rw [hread]
        trivial
      · rw [hread]
        simp only [Outcome.andThen_returned, write_place hp]
        exact h.remove hp

theorem frees_freeRequest {t : Requests} {live : List (Object RequestFields)}
    (h : Holds Object.handle t live) (handle : Int) :
    Frees (Holds Object.handle) (live.filter fun x => x.handle ≠ handle)
      ((handleToRequest fatal t handle).andThen (freeRequest t)) := by
  have hfinds := finds_lookupBelow fatal h handle
  unfold handleToRequest
  cases hlookup : lookupBelow fatal t handle with
  | ended => trivial
  | outOfBounds =>
      rw [hlookup] at hfinds
      exact hfinds
  | returned r =>
      rw [hlookup] at hfinds
      cases r with
      | none =>
          show Holds Object.handle t _
          rw [Holds.filter_eq hfinds]
          exact h
      | some x =>
          obtain ⟨hx, hhandle⟩ := hfinds
          obtain ⟨p, hp, _⟩ := h.found hx
          simp only [Outcome.andThen_returned, freeRequest, write_place hp]
          exact h.remove (hhandle ▸ hp)

/-- `free_datatype` on a datatype that is live. -/
theorem freeDatatype_eq {t : Datatypes} {p : Fin maxDatatypes} {x : Object Nat}
    (hp : t p = some x) (hx : x.handle = p.val) :
    freeDatatype fatal t (some x) =
      if p.val < empiDefinedDatatypes then error fatal (empiErrType, t)
      else .returned (empiSuccess, Function.update t p none) := by
  have hplace : place? maxDatatypes (p.val : Int) = some p := place?_natCast p.isLt
  have hin := not_outside p
  unfold freeDatatype
  simp only [hx]
  rw [if_neg (by omega)]
  by_cases hlow : p.val < empiDefinedDatatypes
  · rw [if_pos (Int.ofNat_lt.mpr hlow), if_pos hlow]
  · rw [if_neg (fun h => hlow (Int.ofNat_lt.mp h)), if_neg hlow, read_place hplace, hp,
      Outcome.andThen_returned, if_neg (by simp), write_place hplace, Outcome.andThen_returned]

theorem frees_freeDatatype {t : Datatypes} {live : List (Object Nat)}
    (h : Holds Object.handle t live) (hmax : handle ≠ maxDatatypes) :
    Frees (Holds Object.handle)
      (if handle < empiDefinedDatatypes then live else live.filter fun x => x.handle ≠ handle)
      ((handleToDatatype fatal t handle).andThen fun type =>
        (freeDatatype fatal t type).andThen fun (_, t) => .returned t) := by
  have hfinds := finds_handleToDatatype fatal h hmax
  cases hlookup : handleToDatatype fatal t handle with
  | ended => trivial
  | outOfBounds =>
      rw [hlookup] at hfinds
      exact hfinds
  | returned type =>
      rw [hlookup] at hfinds
      rw [Outcome.andThen_returned]
      cases type with
      | none =>
          cases fatal with
          | true => trivial
          | false =>
              show Holds Object.handle t _
              rw [Holds.filter_eq hfinds, ite_self]
              exact h
      | some x =>
          obtain ⟨hx, hhandle⟩ := hfinds
          obtain ⟨p, hp, hslot⟩ := h.found hx
          have hplace := eq_of_place? hp
          rw [freeDatatype_eq fatal hslot hplace]
          rw [hhandle] at hp hplace
          by_cases hlow : p.val < empiDefinedDatatypes
          · rw [if_pos hlow, if_pos (by rw [hplace]; exact Int.ofNat_lt.mpr hlow)]
            cases fatal with
            | true => trivial
            | false => exact h
          · rw [if_neg hlow, if_neg (fun hlt => hlow (Int.ofNat_lt.mp (hplace ▸ hlt)))]
            exact h.remove hp

end Steps

/-! ### Runs -/

section Runs

variable (fatal : Bool) {r : Run} {call : Call}

/-- All tables keep their invariants. -/
def Run.Keeps (r : Run) : Prop := ∀ k, Handles.Keeps k (r.tables k) (r.live k)

theorem makes_create (h : r.Keeps) {k : Kind} {malloc : Option Nat} {argument : Argument k}
    (hcall : ¬ r.Overruns (.create k malloc argument)) :
    Makes (Handles.Keeps k) (r.live k) (create fatal k malloc argument (r.tables k)) := by
  have hk := h k
  cases k with
  | request =>
      simp only [create]
      exact makes_createRequest fatal hk malloc argument
  | datatype =>
      simp only [create]
      exact makes_addDatatype fatal hk malloc argument
  | operation => exact makes_createOperation fatal hk hcall malloc argument
  | file =>
      obtain ⟨c, f⟩ := argument
      show Makes Counts _ (addCounted malloc _ _)
      exact makes_addCounted hk malloc _
  | info =>
      show Makes Counts _ (addCounted malloc _ _)
      exact makes_addCounted hk malloc _

theorem frees_free (h : r.Keeps) {k : Kind} {hop : k ≠ .operation} {handle : Int}
    (hcall : ¬ r.Overruns (.free k hop handle)) :
    Frees (Handles.Keeps k) (released k handle (r.live k))
      (free fatal k hop handle (r.tables k)) := by
  have hk := h k
  cases k with
  | request => exact frees_freeRequest fatal hk handle
  | datatype =>
      have hfrees := frees_freeDatatype fatal hk hcall
      simp only [released, true_and]
      exact hfrees
  | operation => exact absurd rfl hop
  | file => exact frees_removeCounted hk handle
  | info => exact frees_removeCounted hk handle

theorem finds_lookup (h : r.Keeps) {k : Kind} {handle : Int}
    (hcall : ¬ r.Overruns (.lookup k handle)) :
    Finds fatal (r.live k) handle (lookup fatal k handle (r.tables k)) := by
  have hk := h k
  cases k with
  | request => exact finds_lookupBelow fatal hk handle
  | datatype => exact finds_handleToDatatype fatal hk hcall
  | operation => exact finds_lookupBelow fatal hk.holds handle
  | file => exact finds_lookupBelow fatal hk.holds handle
  | info => exact finds_lookupBelow fatal hk.holds handle

/-- The tables and what is live of the other kinds stay. -/
theorem Run.Keeps.set (h : r.Keeps) {k : Kind} {t : Table k} {live : List (Object (Fields k))}
    (hk : Handles.Keeps k t live) : (r.set k t live).Keeps := by
  intro j
  unfold Run.set
  by_cases hj : j = k
  · subst hj
    simp only [Function.update_self]
    exact hk
  · simp only [Function.update_of_ne hj]
    exact h j

theorem distinct_of_keeps (h : r.Keeps) : r.Distinct := by
  intro k
  have hk := h k
  cases k with
  | request => exact hk.nodup
  | datatype => exact hk.nodup
  | operation => exact hk.holds.nodup
  | file => exact hk.holds.nodup
  | info => exact hk.holds.nodup

/-- **A call** that does not overrun its array keeps the invariants. -/
theorem keeps_after (h : r.Keeps) (hcall : ¬ r.Overruns call) {r' : Run}
    (hafter : r.after fatal call = some r') : r'.Keeps := by
  cases call with
  | create k malloc argument =>
      have hmakes := makes_create fatal h hcall
      rw [Run.after] at hafter
      split at hafter
      · rename_i x t hcreate
        rw [hcreate] at hmakes
        cases hafter
        exact h.set hmakes
      · cases hafter
  | free k hop handle =>
      have hfrees := frees_free fatal h hcall
      rw [Run.after] at hafter
      split at hafter
      · rename_i t hfree
        rw [hfree] at hfrees
        cases hafter
        exact h.set hfrees
      · cases hafter
  | lookup k handle =>
      rw [Run.after] at hafter
      split at hafter
      · cases hafter
        exact h
      · cases hafter

theorem inside_of_keeps (h : r.Keeps) (hcall : ¬ r.Overruns call) : r.Inside fatal call := by
  cases call with
  | create k malloc argument =>
      have hmakes := makes_create fatal h hcall
      intro hout
      rw [hout] at hmakes
      exact hmakes
  | free k hop handle =>
      have hfrees := frees_free fatal h hcall
      intro hout
      rw [hout] at hfrees
      exact hfrees
  | lookup k handle =>
      have hfinds := finds_lookup fatal h hcall
      intro hout
      rw [hout] at hfinds
      exact hfinds

/-- **A safe call** is one that does not overrun its array. -/
theorem safe_of_keeps (h : r.Keeps) (hcall : ¬ r.Overruns call) : r.Safe fatal call := by
  refine ⟨inside_of_keeps fatal h hcall, distinct_of_keeps h,
    fun r' hafter => distinct_of_keeps (keeps_after fatal h hcall hafter), ?_, ?_⟩
  · rintro k handle rfl x hx hhandle
    have hfinds := finds_lookup fatal h hcall
    cases hlookup : lookup fatal k handle (r.tables k) with
    | ended =>
        rw [hlookup] at hfinds
        exact absurd hhandle (hfinds.2 x hx)
    | outOfBounds =>
        rw [hlookup] at hfinds
        exact absurd hfinds id
    | returned y =>
        rw [hlookup] at hfinds
        cases y with
        | none => exact absurd hhandle (hfinds x hx)
        | some y =>
            have heq := List.inj_on_of_nodup_map (distinct_of_keeps h k) hfinds.1 hx
              (hfinds.2.trans hhandle.symm)
            rw [heq]
  · rintro k handle rfl hnone
    have hfinds := finds_lookup fatal h hcall
    cases hlookup : lookup fatal k handle (r.tables k) with
    | ended =>
        rw [hlookup] at hfinds
        exact Or.inr ⟨hfinds.1, rfl⟩
    | outOfBounds =>
        rw [hlookup] at hfinds
        exact absurd hfinds id
    | returned y =>
        rw [hlookup] at hfinds
        cases y with
        | none => exact Or.inl rfl
        | some y => exact absurd hfinds.2 (hnone y hfinds.1)

/-- The lookup of the datatype `MAX_DATATYPES` reads behind the array. -/
theorem handleToDatatype_max (t : Datatypes) :
    handleToDatatype fatal t maxDatatypes = .outOfBounds := by
  have hplace : place? maxDatatypes (maxDatatypes : Int) = none :=
    place?_eq_none_iff.mpr (Or.inr (Int.le_refl _))
  have hcheck : ¬ ((maxDatatypes : Int) < 0 ∨ (maxDatatypes : Int) < maxDatatypes) := by omega
  unfold handleToDatatype
  rw [if_neg hcheck, read, hplace]
  rfl

/-- A call that overruns its array is not safe. -/
theorem not_inside_of_overruns (hcall : r.Overruns call) : ¬ r.Inside fatal call := by
  intro hinside
  cases call with
  | create k malloc argument =>
      cases k with
      | operation =>
          refine hinside ?_
          have hplace : place? maxOperations (maxOperations : Int) = none :=
            place?_eq_none_iff.mpr (Or.inr (Int.le_refl _))
          have hcheck : ¬ ((maxOperations : Int) < 0 ∨ (maxOperations : Int) < maxOperations) := by
            omega
          show createOperation fatal malloc argument (r.tables .operation) = .outOfBounds
          unfold createOperation initOperation
          rw [show (r.tables .operation).next = maxOperations from hcall, if_neg hcheck, read,
            hplace]
          rfl
      | _ => exact hcall
  | free k hop handle =>
      cases k with
      | datatype =>
          refine hinside ?_
          rw [show handle = maxDatatypes from hcall, free, handleToDatatype_max]
          rfl
      | _ => exact hcall
  | lookup k handle =>
      cases k with
      | datatype =>
          refine hinside ?_
          rw [show handle = maxDatatypes from hcall]
          exact handleToDatatype_max fatal _
      | _ => exact hcall

/-- **Every sequence of calls** from a state that keeps the invariants. -/
theorem throughout_iff (h : r.Keeps) (calls : List Call) :
    Throughout fatal (Run.Safe fatal) r calls ↔
      Throughout fatal (fun r call => ¬ r.Overruns call) r calls := by
  induction calls generalizing r with
  | nil => exact Iff.rfl
  | cons call calls ih =>
      constructor
      · rintro ⟨hsafe, hrest⟩
        have hcall : ¬ r.Overruns call :=
          fun hover => not_inside_of_overruns fatal hover hsafe.inside
        exact ⟨hcall, fun r' hafter => (ih (keeps_after fatal h hcall hafter)).mp (hrest r' hafter)⟩
      · rintro ⟨hcall, hrest⟩
        exact ⟨safe_of_keeps fatal h hcall,
          fun r' hafter => (ih (keeps_after fatal h hcall hafter)).mpr (hrest r' hafter)⟩

/-! ### The predefined objects -/

variable {fatal} {d : Predefined}

/-- The operations that are entered at the start count up from the counter. -/
theorem counts_initOperationsFrom {m : Nat} {t t' : Operations}
    {live : List (Object OperationFields)} (h : Counts t live)
    (hm : t.next + m ≤ maxOperations)
    (hinit : initOperationsFrom d (List.range' t.next m) t = .returned (empiSuccess, t')) :
    Counts t' (live ++ made d.mallocOperation d.operation (List.range' t.next m)) := by
  induction m generalizing t live with
  | zero =>
      cases hinit
      show Counts t' (live ++ [])
      rw [List.append_nil]
      exact h
  | succ m ih =>
      have hlt : t.next < maxOperations := by omega
      rw [List.range'_succ] at hinit ⊢
      unfold initOperationsFrom at hinit
      rcases initOperation_cases h hlt (d.mallocOperation t.next) (d.operation t.next)
        (Or.inl rfl) with ⟨_, hend⟩ | ⟨address, hmalloc, hok⟩
      · have hend : initOperation _ t.next (d.operation t.next) t = _ := hend
        rw [hend] at hinit
        cases hinit
      · have hok : initOperation _ t.next (d.operation t.next) t = _ := hok
        rw [hok, Outcome.andThen_returned] at hinit
        simp only [ne_eq, not_true_eq_false, if_false] at hinit
        have hrest := ih (h.add_next hlt rfl) (by show t.next + 1 + m ≤ maxOperations; omega) hinit
        rw [List.append_assoc] at hrest
        rw [made, List.filterMap_cons, hmalloc]
        exact hrest

/-- `intern_add_datatype` succeeds only at a free place. -/
theorem cases_of_internAddDatatype {malloc : Option Nat} {p : Fin maxDatatypes} {type : Nat}
    {t t' : Datatypes}
    (h : internAddDatatype fatal malloc p.val type t = .returned (empiSuccess, t')) :
    ∃ address, malloc = some address ∧ t p = none ∧
      t' = Function.update t p (some ⟨address, p.val, type⟩) := by
  cases hp : t p with
  | some x =>
      have hplace : place? maxDatatypes (p.val : Int) = some p := place?_natCast p.isLt
      unfold internAddDatatype at h
      rw [if_neg (not_outside p), read_place hplace, hp, Outcome.andThen_returned] at h
      cases fatal <;> cases h
  | none =>
      rw [internAddDatatype_eq fatal hp] at h
      cases malloc with
      | none => cases fatal <;> cases h
      | some address =>
          cases h
          exact ⟨address, rfl, rfl, rfl⟩

/-- The datatypes that are entered at the start. -/
theorem holds_initDatatypesFrom {handles : List Nat} {t t' : Datatypes}
    {live : List (Object Nat)} (h : Holds Object.handle t live)
    (hlt : ∀ i ∈ handles, i < maxDatatypes)
    (hinit : initDatatypesFrom fatal d handles t = .returned (empiSuccess, t')) :
    Holds Object.handle t' (live ++ made d.mallocDatatype d.datatype handles) := by
  induction handles generalizing t live with
  | nil =>
      cases hinit
      show Holds Object.handle t' (live ++ [])
      rw [List.append_nil]
      exact h
  | cons i handles ih =>
      obtain ⟨hi, hlt⟩ := List.forall_mem_cons.mp hlt
      unfold initDatatypesFrom at hinit
      cases hadd : internAddDatatype fatal (d.mallocDatatype i) i (d.datatype i) t with
      | ended =>
          rw [hadd] at hinit
          cases hinit
      | outOfBounds =>
          rw [hadd] at hinit
          cases hinit
      | returned result =>
          obtain ⟨err, t₁⟩ := result
          rw [hadd, Outcome.andThen_returned] at hinit
          by_cases herr : err = empiSuccess
          · subst herr
            simp only [ne_eq, not_true_eq_false, if_false] at hinit
            obtain ⟨address, hmalloc, hfree, rfl⟩ :=
              @cases_of_internAddDatatype fatal _ ⟨i, hi⟩ _ _ _ hadd
            have hrest := ih (h.add hfree rfl) hlt hinit
            rw [List.append_assoc] at hrest
            rw [made, List.filterMap_cons, hmalloc]
            exact hrest
          · simp only [ne_eq, herr, not_false_eq_true, if_true] at hinit
            cases fatal with
            | true => cases hinit
            | false =>
                cases hinit
                exact absurd rfl herr

/-- The tables at the start. -/
theorem keeps_start (h : start fatal d = some r) : r.Keeps := by
  unfold start at h
  split at h
  · rename_i ops allTypes hops htypes
    cases h
    have hcount : List.range' 0 13 = predefinedOperations := by
      rw [predefinedOperations, List.range_eq_range']
    have hzero : Counts (⟨fun _ => none, 0⟩ : Operations) [] :=
      ⟨Holds.empty, Nat.zero_le _, fun _ _ => rfl⟩
    have hbelow : ∀ i ∈ predefinedDatatypes, i < maxDatatypes := by
      intro i hi
      have := List.mem_range.mp (List.mem_filter.mp hi).1
      unfold empiDefinedDatatypes at this
      unfold maxDatatypes
      omega
    intro k
    cases k with
    | request => exact Holds.empty
    | datatype => exact holds_initDatatypesFrom Holds.empty hbelow htypes
    | operation =>
        have hcounts := @counts_initOperationsFrom d 13 _ ops [] hzero (by decide)
          (by rw [hcount]; exact hops)
        rw [hcount] at hcounts
        exact hcounts
    | file => exact ⟨Holds.empty, Nat.zero_le _, fun _ _ => rfl⟩
    | info => exact ⟨Holds.empty, Nat.zero_le _, fun _ _ => rfl⟩
  · cases h

/-- **Handles.**  A sequence of calls after the start is safe throughout if and only if none
of its calls overruns its array: no lookup and no release of the datatype `MAX_DATATYPES`,
and no operation that is created when all `MAX_OPERATIONS` places have been given away. -/
theorem safe_iff_not_overruns (fatal : Bool) (d : Predefined) (calls : List Call) :
    FromStart fatal d (Run.Safe fatal) calls ↔
      FromStart fatal d (fun r call => ¬ r.Overruns call) calls := by
  constructor
  · exact fun h r hr => (throughout_iff fatal (keeps_start hr) calls).mp (h r hr)
  · exact fun h r hr => (throughout_iff fatal (keeps_start hr) calls).mpr (h r hr)

/-- Predefined objects at the addresses of their handles. -/
def atHandles : Predefined where
  operation := fun h => ⟨h, h, 1⟩
  mallocOperation := some
  datatype := id
  mallocDatatype := some

/-- **The datatype `MAX_DATATYPES`** is read behind the array. -/
theorem not_safe_max_datatypes :
    ¬ FromStart true atHandles (Run.Safe true) [.lookup .datatype maxDatatypes] := by
  intro h
  cases hstart : start true atHandles with
  | none => exact absurd hstart (by decide +kernel)
  | some r => exact (h r hstart).1.inside (handleToDatatype_max true _)

end Runs

end Handles

end EsalsaMpi
