import EsalsaMpi.Library.Loops
import Mathlib.Data.List.Basic
import Mathlib.Data.List.Nodup

/-!
# The command line of a gateway

Without a configuration file `init_cluster_info` looks for the location of the server and
the name of the cluster on the command line, and takes the three options with their values
out of `argv`, which the application sees afterwards.

An argument is taken out by moving those behind it.  The branches for the server and for its
port do this twice, for the value and for the option; the branch for the name of the cluster
does it once.  The name is left in `argv`, and is looked at next: as an argument of the
application, or as an option.

So the command line is right if the name of the cluster is not given on it, and it is wrong
if a name is given that is not itself one of the three options
(`strips_of_none_and_option`).
-/

namespace EsalsaMpi

namespace CommandLine

/-- The options. -/
inductive WaOption where
  | server
  | serverPort
  | clusterName
deriving DecidableEq

/-- What an option looks like. -/
def WaOption.word : WaOption → List Char
  | .server => "--wa-server".toList
  | .serverPort => "--wa-server-port".toList
  | .clusterName => "--wa-cluster-name".toList

/-- A pointer in `argv`: the text, and the place that it had on the command line. -/
structure Argument where
  text : List Char
  place : Nat
deriving DecidableEq

/-- The option that an argument is equal to, by `strcmp`. -/
def Argument.option (a : Argument) : Option WaOption :=
  if a.text = WaOption.server.word then
    some .server
  else if a.text = WaOption.serverPort.word then
    some .serverPort
  else if a.text = WaOption.clusterName.word then
    some .clusterName
  else
    none

/-- `isspace`. -/
def isSpace (c : Char) : Bool := c = ' ' || (9 ≤ c.toNat && c.toNat ≤ 13)

/-- `atoi`, behind the sign. -/
def digits (n : Nat) : List Char → Nat
  | [] => n
  | c :: cs => if c.isDigit then digits (10 * n + (c.toNat - 48)) cs else n

/-- `atoi`, without the overflow of numbers that are no `int`. -/
def atoi (s : List Char) : Int :=
  match s.dropWhile isSpace with
  | '-' :: cs => -digits 0 cs
  | '+' :: cs => digits 0 cs
  | cs => digits 0 cs

/-- `server_name`, `server_port` and `cluster_name`. -/
structure ClusterInfo where
  serverName : Option (List Char)
  serverPort : UInt16
  clusterName : Option (List Char)
deriving DecidableEq

/-- The first assignments; -1 is 65535 in `server_port`. -/
def ClusterInfo.unset : ClusterInfo := ⟨none, 65535, none⟩

/-- The value of an option is copied. -/
def ClusterInfo.record (info : ClusterInfo) : WaOption → List Char → ClusterInfo
  | .server, value => { info with serverName := some value }
  | .serverPort, value => { info with serverPort := UInt16.ofInt (atoi value) }
  | .clusterName, value => { info with clusterName := some value }

/-- `MAX_LENGTH_CLUSTER_NAME`. -/
def maxLengthClusterName : Nat := 128

/-- What `init_cluster_info` works on.  Behind the first `argc` entries, `argv` keeps what
was there before. -/
structure Scan where
  argv : List Argument
  argc : Nat
  i : Nat
  info : ClusterInfo

/-- The loop of `DELETE_ARG`, for `n` rounds from `cnt` on. -/
def moveDown : Nat → Nat → List Argument → List Argument
  | 0, _, argv => argv
  | n + 1, cnt, argv => moveDown n (cnt + 1) ((argv[cnt + 1]?.map (argv.set cnt)).getD argv)

/-- `DELETE_ARG`. -/
def Scan.deleteArg (s : Scan) : Scan :=
  { s with argv := moveDown (s.argc - 1 - s.i) s.i s.argv, argc := s.argc - 1 }

/-- A value is recorded. -/
def Scan.record (s : Scan) (o : WaOption) (value : List Char) : Scan :=
  { s with info := s.info.record o value }

/-- What `init_cluster_info` returns: 0, or 1 with what it has left behind. -/
inductive Outcome where
  | failed
  | parsed (s : Scan)

/-- A round of the loop of `init_cluster_info`. -/
def parseArg (s : Scan) : Scan ⊕ Outcome :=
  if s.i < s.argc then
    match s.argv[s.i]?.bind Argument.option, s.argv[s.i + 1]? with
    | none, _ => .inl { s with i := s.i + 1 }
    | some o, next =>
      if s.i + 1 < s.argc then
        match o, next with
        | _, none => .inr .failed
        | .clusterName, some name =>
          if maxLengthClusterName ≤ name.text.length then
            .inr .failed
          else
            .inl (s.record .clusterName name.text).deleteArg
        | o, some value => .inl (s.record o value.text).deleteArg.deleteArg
      else
        .inr .failed
  else
    .inr (.parsed s)

/-- The arguments of `main`. -/
def argumentsOf (words : List (List Char)) : List Argument :=
  words.zipIdx.map fun (text, place) => ⟨text, place⟩

/-- `init_cluster_info` without a configuration file, before its loop. -/
def start (words : List (List Char)) : Scan where
  argv := argumentsOf words
  argc := words.length
  i := 1
  info := .unset

/-- The arguments that are neither an option nor its value, and the last values.  There are
none if an option has no value or the name of a cluster is too long. -/
def strip (info : ClusterInfo) : List Argument → Option (List Argument × ClusterInfo)
  | [] => some ([], info)
  | [a] => if a.option = none then some ([a], info) else none
  | a :: value :: rest =>
    match a.option with
    | none => (strip info (value :: rest)).map fun (kept, info) => (a :: kept, info)
    | some o =>
      if o = .clusterName ∧ maxLengthClusterName ≤ value.text.length then
        none
      else
        strip (info.record o value.text) rest

/-- **Command line stripping**: if every option has a value, the function returns, with the
last values, and leaves the other arguments in `argv`. -/
def Strips (words : List (List Char)) : Prop :=
  ∀ kept info, strip .unset ((argumentsOf words).drop 1) = some (kept, info) →
    ∃ s, Loops.Returns parseArg (start words) (.parsed s) ∧ s.info = info ∧
      s.argv.take s.argc = (argumentsOf words).take 1 ++ kept

/-- The values of `--wa-cluster-name`. -/
def clusterNames : List Argument → List Argument
  | [] => []
  | [_] => []
  | a :: value :: rest =>
    match a.option with
    | none => clusterNames (value :: rest)
    | some .clusterName => value :: clusterNames rest
    | some _ => clusterNames rest

/-- What the loop does: the name of a cluster is looked at again. -/
def reread (info : ClusterInfo) : List Argument → Option (List Argument × ClusterInfo)
  | [] => some ([], info)
  | [a] => if a.option = none then some ([a], info) else none
  | a :: value :: rest =>
    match a.option with
    | none => (reread info (value :: rest)).map fun (kept, info) => (a :: kept, info)
    | some .clusterName =>
      if maxLengthClusterName ≤ value.text.length then
        none
      else
        reread (info.record .clusterName value.text) (value :: rest)
    | some o => reread (info.record o value.text) rest

/-- `argv` has the arguments that have been passed over, those to come, and what was there
before. -/
structure Scanned (s : Scan) (before rest : List Argument) : Prop where
  argv : ∃ stale, s.argv = before ++ (rest ++ stale)
  argc : s.argc = before.length + rest.length
  i : s.i = before.length

variable {s : Scan} {before rest kept : List Argument} {a value : Argument} {info : ClusterInfo}

/-- The arguments move over one of them. -/
theorem moveDown_eq (before rest stale : List Argument) (a : Argument) :
    ∃ last, moveDown rest.length before.length (before ++ a :: (rest ++ stale)) =
      before ++ (rest ++ last :: stale) := by
  induction rest generalizing before a with
  | nil => exact ⟨a, rfl⟩
  | cons b rest ih =>
      obtain ⟨last, hlast⟩ := ih (before ++ [b]) b
      have hnext : (before ++ a :: (b :: rest ++ stale))[before.length + 1]? = some b := by
        rw [List.getElem?_append_right (Nat.le_add_right _ 1), Nat.add_sub_cancel_left]
        rfl
      have hset : (before ++ a :: (b :: rest ++ stale)).set before.length b =
          before ++ [b] ++ b :: (rest ++ stale) := by
        rw [List.set_append_right _ _ (Nat.le_refl _), Nat.sub_self, List.set_cons_zero,
          List.append_assoc]
        rfl
      rw [List.length_append, List.length_singleton] at hlast
      refine ⟨last, ?_⟩
      rw [List.length_cons, moveDown, hnext, Option.map_some, Option.getD_some, hset, hlast,
        List.append_assoc]
      rfl

/-- **`DELETE_ARG`** takes the argument at `i` out. -/
theorem Scanned.deleteArg (h : Scanned s before (a :: rest)) :
    Scanned s.deleteArg before rest := by
  obtain ⟨stale, hargv⟩ := h.argv
  have hargc := h.argc
  rw [List.length_cons] at hargc
  have hrounds : s.argc - 1 - s.i = rest.length := by
    rw [hargc, h.i]
    omega
  obtain ⟨last, hlast⟩ := moveDown_eq before rest stale a
  refine ⟨⟨last :: stale, ?_⟩, ?_, h.i⟩
  · show moveDown (s.argc - 1 - s.i) s.i s.argv = _
    rw [hrounds, h.i, hargv]
    exact hlast
  · show s.argc - 1 = _
    omega

theorem Scanned.record (h : Scanned s before rest) (o : WaOption) (value : List Char) :
    Scanned (s.record o value) before rest :=
  ⟨h.argv, h.argc, h.i⟩

/-- An argument is passed over. -/
theorem Scanned.next (h : Scanned s before (a :: rest)) :
    Scanned { s with i := s.i + 1 } (before ++ [a]) rest := by
  obtain ⟨stale, hargv⟩ := h.argv
  have hargc := h.argc
  refine ⟨⟨stale, ?_⟩, ?_, ?_⟩
  · rw [hargv, List.append_assoc]
    rfl
  · rw [hargc, List.length_append, List.length_cons, List.length_singleton]
    omega
  · rw [List.length_append, List.length_singleton, ← h.i]

/-- The argument at `i`. -/
theorem Scanned.current (h : Scanned s before (a :: rest)) :
    s.i < s.argc ∧ s.argv[s.i]? = some a := by
  obtain ⟨stale, hargv⟩ := h.argv
  constructor
  · rw [h.argc, h.i, List.length_cons]
    omega
  · rw [hargv, h.i, List.getElem?_append_right (Nat.le_refl _), Nat.sub_self]
    rfl

/-- The argument behind it. -/
theorem Scanned.following (h : Scanned s before (a :: value :: rest)) :
    s.i + 1 < s.argc ∧ s.argv[s.i + 1]? = some value := by
  obtain ⟨hlt, hvalue⟩ := h.next.current
  exact ⟨hlt, hvalue⟩

/-- An argument of the application is passed over. -/
theorem parseArg_plain (h : Scanned s before (a :: rest)) (ha : a.option = none) :
    parseArg s = .inl { s with i := s.i + 1 } := by
  obtain ⟨hlt, hcurrent⟩ := h.current
  rw [parseArg, if_pos hlt, hcurrent, Option.bind_some, ha]

/-- An option without a value. -/
theorem parseArg_missing {o : WaOption} (h : Scanned s before [a]) (ha : a.option = some o) :
    parseArg s = .inr .failed := by
  obtain ⟨hlt, hcurrent⟩ := h.current
  have hlast : ¬ s.i + 1 < s.argc := by
    rw [h.argc, h.i, List.length_singleton]
    omega
  rw [parseArg, if_pos hlt, hcurrent, Option.bind_some, ha]
  simp only
  rw [if_neg hlast]

/-- A name of the cluster. -/
theorem parseArg_clusterName (h : Scanned s before (a :: value :: rest))
    (ha : a.option = some .clusterName) :
    parseArg s =
      if maxLengthClusterName ≤ value.text.length then
        .inr .failed
      else
        .inl (s.record .clusterName value.text).deleteArg := by
  obtain ⟨hlt, hcurrent⟩ := h.current
  obtain ⟨hlt', hfollowing⟩ := h.following
  rw [parseArg, if_pos hlt, hcurrent, Option.bind_some, ha, hfollowing]
  simp only
  rw [if_pos hlt']

/-- The server, or its port. -/
theorem parseArg_server {o : WaOption} (h : Scanned s before (a :: value :: rest))
    (ha : a.option = some o) (ho : o ≠ .clusterName) :
    parseArg s = .inl (s.record o value.text).deleteArg.deleteArg := by
  obtain ⟨hlt, hcurrent⟩ := h.current
  obtain ⟨hlt', hfollowing⟩ := h.following
  rw [parseArg, if_pos hlt, hcurrent, Option.bind_some, ha, hfollowing]
  cases o with
  | server => exact if_pos hlt'
  | serverPort => exact if_pos hlt'
  | clusterName => exact absurd rfl ho

/-- How the function ends, with `before` already passed over. -/
inductive Ends (before : List Argument) : Outcome → Option (List Argument × ClusterInfo) → Prop where
  | failed : Ends before .failed none
  | parsed {s : Scan} {kept : List Argument} (h : s.argv.take s.argc = before ++ kept) :
      Ends before (.parsed s) (some (kept, s.info))

theorem Ends.passed {r : Outcome} {e : Option (List Argument × ClusterInfo)}
    (h : Ends (before ++ [a]) r e) :
    Ends before r (e.map fun (kept, info) => (a :: kept, info)) := by
  cases h with
  | failed => exact .failed
  | parsed hargv =>
      rw [List.append_assoc] at hargv
      exact .parsed hargv

/-- The loop at the end of the arguments. -/
theorem ends_nil (h : Scanned s before []) :
    ∃ r, Loops.Returns parseArg s r ∧ Ends before r (some ([], s.info)) := by
  have hdone : ¬ s.i < s.argc := by
    rw [h.argc, h.i, List.length_nil]
    omega
  have hlast : parseArg s = .inr (.parsed s) := if_neg hdone
  obtain ⟨stale, hargv⟩ := h.argv
  refine ⟨.parsed s, .last hlast, .parsed ?_⟩
  rw [hargv, h.argc, List.length_nil, Nat.add_zero, List.take_left, List.append_nil]

/-- **The loop** reads the name of a cluster again. -/
theorem ends_reread (info : ClusterInfo) (rest : List Argument) {s : Scan}
    {before : List Argument} (h : Scanned s before rest) (hinfo : s.info = info) :
    ∃ r, Loops.Returns parseArg s r ∧ Ends before r (reread info rest) := by
  induction info, rest using reread.induct generalizing s before with
  | case1 info =>
      rw [reread, ← hinfo]
      exact ends_nil h
  | case2 info a ha =>
      obtain ⟨r, hr, hends⟩ := ends_nil h.next
      refine ⟨r, hr.next (parseArg_plain h ha), ?_⟩
      rw [reread, if_pos ha, ← hinfo]
      exact hends.passed
  | case3 info a ha =>
      obtain ⟨o, ho⟩ := Option.ne_none_iff_exists'.mp ha
      refine ⟨.failed, .last (parseArg_missing h ho), ?_⟩
      rw [reread, if_neg ha]
      exact .failed
  | case4 info a value rest ha ih =>
      obtain ⟨r, hr, hends⟩ := ih h.next hinfo
      refine ⟨r, hr.next (parseArg_plain h ha), ?_⟩
      rw [reread, ha]
      exact hends.passed
  | case5 info a value rest ha hlong =>
      refine ⟨.failed, .last ((parseArg_clusterName h ha).trans (if_pos hlong)), ?_⟩
      rw [reread, ha]
      simp only
      rw [if_pos hlong]
      exact .failed
  | case6 info a value rest ha hshort ih =>
      obtain ⟨r, hr, hends⟩ := ih (h.record .clusterName value.text).deleteArg
        (congrArg (ClusterInfo.record · .clusterName value.text) hinfo)
      refine ⟨r, hr.next ((parseArg_clusterName h ha).trans (if_neg hshort)), ?_⟩
      rw [reread, ha]
      simp only
      rw [if_neg hshort]
      exact hends
  | case7 info a value rest o ho ha ih =>
      obtain ⟨r, hr, hends⟩ := ih (h.record o value.text).deleteArg.deleteArg
        (congrArg (ClusterInfo.record · o value.text) hinfo)
      refine ⟨r, hr.next (parseArg_server h ha ho), ?_⟩
      rw [reread, ha]
      cases o with
      | server => exact hends
      | serverPort => exact hends
      | clusterName => exact absurd rfl ho

/-- The scan begins behind the name of the program. -/
theorem scanned_start (word : List Char) (words : List (List Char)) :
    Scanned (start (word :: words)) ((argumentsOf (word :: words)).take 1)
      ((argumentsOf (word :: words)).drop 1) := by
  refine ⟨⟨[], ?_⟩, ?_, rfl⟩
  · rw [List.append_nil, List.take_append_drop]
    rfl
  · rw [← List.length_append, List.take_append_drop, argumentsOf, List.length_map,
      List.length_zipIdx]
    rfl

/-- **What `init_cluster_info` does** with a command line. -/
theorem ends_start (words : List (List Char)) :
    ∃ r, Loops.Returns parseArg (start words) r ∧
      Ends ((argumentsOf words).take 1) r (reread .unset ((argumentsOf words).drop 1)) := by
  cases words with
  | nil => exact ⟨.parsed (start []), .last rfl, @Ends.parsed [] (start []) [] rfl⟩
  | cons word words => exact ends_reread .unset _ (scanned_start word words) rfl

/-- Stripping, on the lists of arguments. -/
theorem strips_iff_reread (words : List (List Char)) :
    Strips words ↔ ∀ kept info, strip .unset ((argumentsOf words).drop 1) = some (kept, info) →
      reread .unset ((argumentsOf words).drop 1) = some (kept, info) := by
  obtain ⟨r, hr, hends⟩ := ends_start words
  constructor
  · intro h kept info hstrip
    obtain ⟨s, hs, hinfo, hargv⟩ := h kept info hstrip
    obtain rfl := hr.unique hs
    generalize reread .unset _ = e at hends
    cases hends with
    | parsed hkept =>
        obtain rfl := List.append_cancel_left (hkept.symm.trans hargv)
        rw [hinfo]
  · intro h kept info hstrip
    rw [h kept info hstrip] at hends
    cases hends with
    | parsed hkept => exact ⟨_, hr, rfl, hkept⟩

/-- Without a name of a cluster nothing is read again. -/
theorem reread_eq_strip (info : ClusterInfo) (rest : List Argument) (h : clusterNames rest = []) :
    reread info rest = strip info rest := by
  induction info, rest using strip.induct with
  | case1 info => rfl
  | case2 info a ha => rfl
  | case3 info a ha => rfl
  | case4 info a value rest ha ih =>
      rw [clusterNames, ha] at h
      rw [reread, strip, ha]
      simp only
      rw [ih h]
  | case5 info a value rest o ha hlong =>
      rw [clusterNames, ha, hlong.1] at h
      cases h
  | case6 info a value rest o ha hshort ih =>
      rw [clusterNames, ha] at h
      rw [reread, strip, ha]
      simp only
      rw [if_neg hshort]
      cases o with
      | server => exact ih h
      | serverPort => exact ih h
      | clusterName => cases h

/-- What is left of a list that begins with `a`. -/
theorem strip_cons {l : List Argument} {info' : ClusterInfo}
    (h : strip info (a :: l) = some (kept, info')) :
    (a.option = none ∧ ∃ kept', kept = a :: kept' ∧ strip info l = some (kept', info')) ∨
      ∃ o value rest, a.option = some o ∧ l = value :: rest ∧
        strip (info.record o value.text) rest = some (kept, info') := by
  cases l with
  | nil =>
      rw [strip] at h
      split at h
      next ha =>
        cases h
        exact Or.inl ⟨ha, [], rfl, rfl⟩
      next => cases h
  | cons value rest =>
      rw [strip] at h
      cases ha : a.option with
      | none =>
          rw [ha] at h
          obtain ⟨⟨kept', info''⟩, hrest, heq⟩ := Option.map_eq_some_iff.mp h
          cases heq
          exact Or.inl ⟨rfl, kept', rfl, hrest⟩
      | some o =>
          rw [ha] at h
          simp only at h
          split at h
          next => cases h
          next => exact Or.inr ⟨o, value, rest, rfl, rfl, h⟩

/-- What the loop leaves of a list that begins with `a`. -/
theorem reread_cons {l : List Argument} {info' : ClusterInfo}
    (h : reread info (a :: l) = some (kept, info')) :
    (a.option = none ∧ ∃ kept', kept = a :: kept' ∧ reread info l = some (kept', info')) ∨
      ∃ o value rest, a.option = some o ∧ l = value :: rest ∧
        reread (info.record o value.text) (if o = .clusterName then l else rest) =
          some (kept, info') := by
  cases l with
  | nil =>
      rw [reread] at h
      split at h
      next ha =>
        cases h
        exact Or.inl ⟨ha, [], rfl, rfl⟩
      next => cases h
  | cons value rest =>
      rw [reread] at h
      cases ha : a.option with
      | none =>
          rw [ha] at h
          obtain ⟨⟨kept', info''⟩, hrest, heq⟩ := Option.map_eq_some_iff.mp h
          cases heq
          exact Or.inl ⟨rfl, kept', rfl, hrest⟩
      | some o =>
          rw [ha] at h
          refine Or.inr ⟨o, value, rest, rfl, rfl, ?_⟩
          cases o with
          | server => exact h
          | serverPort => exact h
          | clusterName =>
              simp only at h
              split at h
              next => cases h
              next => exact h

/-- What is kept was there. -/
theorem subset_of_strip {l : List Argument} {info' : ClusterInfo}
    (h : strip info l = some (kept, info')) : kept ⊆ l := by
  induction hn : l.length using Nat.strongRecOn generalizing l info kept with
  | ind n ih =>
      cases l with
      | nil =>
          cases h
          exact List.Subset.refl _
      | cons a l =>
          rw [List.length_cons] at hn
          rcases strip_cons h with ⟨-, kept', rfl, hrest⟩ | ⟨o, value, rest, -, rfl, hrest⟩
          · exact List.cons_subset_cons a (ih l.length (by omega) hrest rfl)
          · rw [List.length_cons] at hn
            have hsubset := ih rest.length (by omega) hrest rfl
            exact List.subset_cons_of_subset a (List.subset_cons_of_subset value hsubset)

theorem subset_of_reread {l : List Argument} {info' : ClusterInfo}
    (h : reread info l = some (kept, info')) : kept ⊆ l := by
  induction hn : l.length using Nat.strongRecOn generalizing l info kept with
  | ind n ih =>
      cases l with
      | nil =>
          cases h
          exact List.Subset.refl _
      | cons a l =>
          rw [List.length_cons] at hn
          rcases reread_cons h with ⟨-, kept', rfl, hrest⟩ | ⟨o, value, rest, -, rfl, hrest⟩
          · exact List.cons_subset_cons a (ih l.length (by omega) hrest rfl)
          · have hsubset : kept ⊆ value :: rest := by
              split at hrest
              next => exact ih _ (by omega) hrest rfl
              next =>
                rw [List.length_cons] at hn
                exact List.subset_cons_of_subset value (ih _ (by omega) hrest rfl)
            exact List.subset_cons_of_subset a hsubset

/-- The names in a list that begins with an argument of the application. -/
theorem clusterNames_plain {l : List Argument} (ha : a.option = none) :
    clusterNames (a :: l) = clusterNames l := by
  cases l with
  | nil => rfl
  | cons value rest => rw [clusterNames, ha]

/-- The names in a list that begins with an option. -/
theorem clusterNames_option {o : WaOption} (ha : a.option = some o) :
    clusterNames (a :: value :: rest) =
      if o = .clusterName then value :: clusterNames rest else clusterNames rest := by
  rw [clusterNames, ha]
  cases o <;> rfl

/-- **Names that are read again.**  Where the loop leaves the right arguments although it
reads the names again, all the names are options.  It is then either at the same argument as
the specification, or one behind it. -/
theorem option_of_kept (n : Nat) :
    (∀ {l kept info info' i i'}, l.length ≤ n → l.Nodup → strip info l = some (kept, i) →
      reread info' l = some (kept, i') → ∀ name ∈ clusterNames l, name.option ≠ none) ∧
    ∀ {v l kept info info' i i'}, l.length < n → (v :: l).Nodup → strip info l = some (kept, i) →
      reread info' (v :: l) = some (kept, i') →
        v.option ≠ none ∧ ∀ name ∈ clusterNames l, name.option ≠ none := by
  induction n with
  | zero =>
      refine ⟨fun {l _ _ _ _ _} hlength _ _ _ => ?_, fun hlength => absurd hlength (Nat.not_lt_zero _)⟩
      rw [List.eq_nil_of_length_eq_zero (Nat.le_zero.mp hlength)]
      exact nofun
  | succ n ih =>
      obtain ⟨hsame, hbehind⟩ := ih
      constructor
      · intro l kept info info' i i' hlength hnodup hstrip hreread
        cases l with
        | nil => exact nofun
        | cons a l =>
            rw [List.length_cons] at hlength
            have hnodup' := (List.nodup_cons.mp hnodup).2
            rcases strip_cons hstrip with ⟨ha, kept', rfl, hrest⟩ | ⟨o, value, rest, ha, rfl, hrest⟩
            · rcases reread_cons hreread with ⟨-, kept'', hkept, hagain⟩ | ⟨o, _, _, ho, _⟩
              · cases hkept
                rw [clusterNames_plain ha]
                exact hsame (by omega) hnodup' hrest hagain
              · rw [ha] at ho
                cases ho
            · rcases reread_cons hreread with ⟨ho, _⟩ | ⟨o', value', rest', ho, heq, hagain⟩
              · rw [ha] at ho
                cases ho
              · cases heq
                obtain rfl := Option.some.inj (ha.symm.trans ho)
                rw [List.length_cons] at hlength
                rw [clusterNames_option ha]
                by_cases hname : o = .clusterName
                · rw [if_pos hname] at hagain ⊢
                  obtain ⟨hvalue, hnames⟩ := hbehind (by omega) hnodup' hrest hagain
                  exact List.forall_mem_cons.mpr ⟨hvalue, hnames⟩
                · rw [if_neg hname] at hagain ⊢
                  exact hsame (by omega) (List.nodup_cons.mp hnodup').2 hrest hagain
      · intro v l kept info info' i i' hlength hnodup hstrip hreread
        obtain ⟨hv, hnodup'⟩ := List.nodup_cons.mp hnodup
        rcases reread_cons hreread with ⟨-, kept', rfl, -⟩ | ⟨o, w, l', hv', rfl, hagain⟩
        · exact absurd (subset_of_strip hstrip List.mem_cons_self) hv
        · have hoption : v.option ≠ none := by
            rw [hv']
            exact nofun
          refine ⟨hoption, ?_⟩
          rw [List.length_cons] at hlength
          by_cases hname : o = .clusterName
          · rw [if_pos hname] at hagain
            exact hsame (by rw [List.length_cons]; omega) hnodup' hstrip hagain
          · rw [if_neg hname] at hagain
            obtain ⟨hw, hnodup''⟩ := List.nodup_cons.mp hnodup'
            rcases strip_cons hstrip with ⟨-, kept', rfl, -⟩ | ⟨o', x, rest, hw', rfl, hrest⟩
            · exact absurd (subset_of_reread hagain List.mem_cons_self) hw
            · rw [List.length_cons] at hlength
              obtain ⟨hx, hnames⟩ := hbehind (by omega) hnodup'' hrest hagain
              rw [clusterNames_option hw']
              split
              next => exact List.forall_mem_cons.mpr ⟨hx, hnames⟩
              next => exact hnames

theorem nodup_argumentsOf (words : List (List Char)) : (argumentsOf words).Nodup := by
  have hplaces : (argumentsOf words).map Argument.place = List.range words.length := by
    rw [argumentsOf, List.map_map, List.range_eq_range', ← List.zipIdx_map_snd 0 words]
    rfl
  have hnodup := List.nodup_range (n := words.length)
  rw [← hplaces] at hnodup
  exact hnodup.of_map

/-- **The command line.**  Without a name of the cluster it is stripped.  With names it is
stripped only where all of them are options themselves. -/
theorem strips_of_none_and_option (words : List (List Char)) :
    (clusterNames ((argumentsOf words).drop 1) = [] → Strips words) ∧
      (Strips words → strip .unset ((argumentsOf words).drop 1) = none ∨
        ∀ name ∈ clusterNames ((argumentsOf words).drop 1), name.option ≠ none) := by
  rw [strips_iff_reread]
  constructor
  · intro hnone kept info hstrip
    rw [reread_eq_strip _ _ hnone]
    exact hstrip
  · intro h
    cases hstrip : strip .unset ((argumentsOf words).drop 1) with
    | none => exact Or.inl rfl
    | some result =>
        have hnodup := (nodup_argumentsOf words).sublist (List.drop_sublist 1 _)
        exact Or.inr ((option_of_kept _).1 (Nat.le_refl _) hnodup hstrip (h _ _ hstrip))

/-- A command line without the name of a cluster. -/
def withServer : List (List Char) :=
  ["app".toList, "--wa-server".toList, "node0".toList, "in.dat".toList,
    "--wa-server-port".toList, "17171".toList]

theorem strips_withServer :
    strip .unset ((argumentsOf withServer).drop 1) =
        some ([⟨"in.dat".toList, 3⟩], ⟨some "node0".toList, 17171, none⟩) ∧
      Strips withServer :=
  ⟨by decide, (strips_of_none_and_option withServer).1 (by decide)⟩

/-- A command line with the name of a cluster. -/
def withClusterName : List (List Char) :=
  ["app".toList, "--wa-cluster-name".toList, "das4".toList]

/-- The name is left in `argv`. -/
theorem not_strips_withClusterName :
    strip .unset ((argumentsOf withClusterName).drop 1) =
        some ([], ⟨none, 65535, some "das4".toList⟩) ∧
      reread .unset ((argumentsOf withClusterName).drop 1) =
        some ([⟨"das4".toList, 2⟩], ⟨none, 65535, some "das4".toList⟩) ∧
      ¬ Strips withClusterName := by
  have hstrip : strip .unset ((argumentsOf withClusterName).drop 1) =
      some ([], ⟨none, 65535, some "das4".toList⟩) := by decide
  have hreread : reread .unset ((argumentsOf withClusterName).drop 1) =
      some ([⟨"das4".toList, 2⟩], ⟨none, 65535, some "das4".toList⟩) := by decide
  refine ⟨hstrip, hreread, fun h => ?_⟩
  have hsame := (strips_iff_reread withClusterName).mp h _ _ hstrip
  rw [hreread] at hsame
  cases hsame

/-- Names that are options can come out right by chance. -/
example : Strips (["app", "--wa-cluster-name", "--wa-server", "--wa-server",
    "--wa-cluster-name", "--wa-server", "node0"].map String.toList) := by
  rw [strips_iff_reread]
  intro kept info hstrip
  rw [← hstrip]
  decide

end CommandLine

end EsalsaMpi
