import Mathlib.Data.List.Basic
import Mathlib.Data.List.Induction
import Mathlib.Data.List.Nodup
import Mathlib.Data.List.TakeDrop

/-!
# Keys in order of first occurrence

A single left-to-right pass over a list of keys meets every distinct key for
the first time at some place; `List.eraseDups` lists the keys in that order.
This file collects what such a pass can know.

* `eraseDups_concat` says what one more key adds, `prefix_eraseDups` that the
  keys met so far are a prefix of all the keys.
* A pass that answers "the key met last" instead of "the key of this entry"
  is right at every place exactly when the occurrences of each key are
  consecutive: `newest_eq_idxOf_iff_grouped`.
-/

namespace FirstOccurrence

variable {κ : Type*} [DecidableEq κ]

/-- One more key is appended exactly when it is new. -/
theorem eraseDups_concat (ks : List κ) (k : κ) :
    (ks ++ [k]).eraseDups =
      if k ∈ ks then ks.eraseDups else ks.eraseDups ++ [k] := by
  by_cases hk : k ∈ ks
  · simp [List.eraseDups_append, List.removeAll, hk]
  · simp [List.eraseDups_append, List.removeAll, hk, List.eraseDups_cons]

theorem nodup_eraseDups (ks : List κ) : ks.eraseDups.Nodup := by
  induction ks using List.reverseRecOn with
  | nil => simp
  | append_singleton ks k ih =>
      rw [eraseDups_concat]
      split
      · exact ih
      · rename_i hk
        have hk' : k ∉ ks.eraseDups := by simpa [List.mem_eraseDups] using hk
        simpa [List.concat_eq_append] using List.Nodup.concat hk' ih

theorem length_eraseDups_le (ks : List κ) : ks.eraseDups.length ≤ ks.length := by
  induction ks using List.reverseRecOn with
  | nil => exact Nat.le_refl 0
  | append_singleton ks k ih =>
      rw [eraseDups_concat, List.length_append, List.length_singleton]
      split
      · omega
      · rw [List.length_append, List.length_singleton]
        omega

/-- The keys met in a prefix come first. -/
theorem prefix_eraseDups (ks ls : List κ) :
    ks.eraseDups <+: (ks ++ ls).eraseDups := by
  rw [List.eraseDups_append]
  exact List.prefix_append _ _

/-- Finding a key met before only looks at the keys met before. -/
theorem idxOf_eraseDups_append {ks : List κ} (ls : List κ) {k : κ} (hk : k ∈ ks) :
    (ks ++ ls).eraseDups.idxOf k = ks.eraseDups.idxOf k := by
  rw [List.eraseDups_append]
  exact List.idxOf_append_of_mem (List.mem_eraseDups.mpr hk)

/-- Distinct keys stand at distinct places. -/
theorem eq_of_idxOf_eraseDups_eq {ks : List κ} {k l : κ} (hk : k ∈ ks)
    (h : ks.eraseDups.idxOf k = ks.eraseDups.idxOf l) : k = l :=
  (List.idxOf_inj (List.mem_eraseDups.mpr hk)).mp h

/-- Entries collected key by key are the entries. -/
theorem perm_flatMap_filter {α : Type*} (f : α → κ) {keys : List κ} (l : List α)
    (hnodup : keys.Nodup) (hkeys : ∀ x ∈ l, f x ∈ keys) :
    (keys.flatMap fun k => l.filter fun x => f x = k).Perm l := by
  induction keys generalizing l with
  | nil =>
      have hempty : l = [] :=
        List.eq_nil_iff_forall_not_mem.mpr fun x hx => by simpa using hkeys x hx
      simp [hempty]
  | cons k keys ih =>
      obtain ⟨hk, hnodup⟩ := List.nodup_cons.mp hnodup
      have hrest := ih (l.filter fun x => !decide (f x = k)) hnodup (by
        intro x hx
        obtain ⟨hx, hne⟩ := List.mem_filter.mp hx
        rcases List.mem_cons.mp (hkeys x hx) with h | h
        · simp [h] at hne
        · exact h)
      have hsame : (keys.flatMap fun j =>
            (l.filter fun x => !decide (f x = k)).filter fun x => f x = j) =
          keys.flatMap fun j => l.filter fun x => f x = j := by
        apply List.flatMap_congr
        intro j hj
        rw [List.filter_filter]
        apply List.filter_congr
        intro x _
        by_cases hx : f x = j
        · have hne : f x ≠ k := fun h => hk (h ▸ hx ▸ hj)
          simp [hne]
        · simp [hx]
      rw [hsame] at hrest
      rw [List.flatMap_cons]
      exact (hrest.append_left _).trans (List.filter_append_perm _ l)

/-- How often the key of each entry has occurred before that entry. -/
def ranks (ks : List κ) : List Nat :=
  ks.mapIdx fun i k => (ks.take i).count k

@[simp] theorem length_ranks (ks : List κ) : (ranks ks).length = ks.length := by
  simp [ranks]

theorem ranks_concat (ks : List κ) (k : κ) :
    ranks (ks ++ [k]) = ranks ks ++ [ks.count k] := by
  unfold ranks
  rw [List.mapIdx_concat]
  congr 1
  · apply List.mapIdx_eq_mapIdx_iff.mpr
    intro i hi
    rw [List.take_append_of_le_length (Nat.le_of_lt hi)]
  · simp

theorem getElem?_ranks {ks : List κ} {i : Nat} (hi : i < ks.length) :
    (ranks ks)[i]? = some ((ks.take i).count ks[i]) := by
  simp [ranks, hi]

/-- **Ranks within a key.**  The entries that carry `k` have the ranks
`0, …, count k - 1`, in this order. -/
theorem ranks_of_key (ks : List κ) (k : κ) :
    ((ks.zip (ranks ks)).filter fun e => e.1 = k).map (·.2) =
      List.range (ks.count k) := by
  induction ks using List.reverseRecOn with
  | nil => simp
  | append_singleton ks l ih =>
      rw [ranks_concat, List.zip_append (by simp), List.filter_append,
        List.map_append, ih]
      by_cases hl : l = k
      · subst hl
        simp [List.range_succ]
      · simp [hl]

/-- Two entries of one key with equal ranks are the same entry. -/
theorem eq_of_ranks_eq {ks : List κ} {i j : Nat} (hi : i < ks.length)
    (hj : j < ks.length) (hkey : ks[i] = ks[j])
    (hrank : (ks.take i).count ks[i] = (ks.take j).count ks[j]) : i = j := by
  have step : ∀ {a b : Nat} (ha : a < ks.length) (hb : b < ks.length),
      a < b → ks[a] = ks[b] →
      (ks.take a).count ks[a] < (ks.take b).count ks[b] := by
    intro a b ha hb hab heq
    have hle : (ks.take (a + 1)).count ks[b] ≤ (ks.take b).count ks[b] := by
      have hsub : ks.take (a + 1) = (ks.take b).take (a + 1) := by
        rw [List.take_take, Nat.min_eq_left (by omega)]
      rw [hsub]
      exact (List.take_sublist _ _).count_le _
    rw [List.take_succ_eq_append_getElem ha, List.count_append, heq] at hle
    simp at hle
    rw [heq]
    omega
  rcases Nat.lt_trichotomy i j with h | h | h
  · exact absurd (step hi hj h hkey) (by omega)
  · exact h
  · exact absurd (step hj hi h hkey.symm) (by omega)

/-- An entry is found again from its key and its rank. -/
theorem eq_of_getElem?_ranks_eq {ks : List κ} {i j : Nat} (hi : i < ks.length)
    (hkey : ks[i]? = ks[j]?) (hrank : (ranks ks)[i]? = (ranks ks)[j]?) : i = j := by
  rw [List.getElem?_eq_getElem hi] at hkey
  obtain ⟨hj, hkey⟩ := List.getElem?_eq_some_iff.mp hkey.symm
  rw [getElem?_ranks hi, getElem?_ranks hj] at hrank
  exact eq_of_ranks_eq hi hj hkey.symm (Option.some.inj hrank)

/-- The rank of an entry is its place among the entries with its key. -/
theorem idxOf_filter_eq_rank {α : Type*} [DecidableEq α] {f : α → κ} {l : List α}
    (hnodup : l.Nodup) {i : Nat} {x : α} (hx : l[i]? = some x) :
    (ranks (l.map f))[i]? = some ((l.filter fun y => f y = f x).idxOf x) := by
  obtain ⟨hi, hxi⟩ := List.getElem?_eq_some_iff.mp hx
  have hsplit : l = l.take i ++ x :: l.drop (i + 1) := by
    rw [← hxi]
    simp
  have hbefore : x ∉ l.take i := by
    rw [hsplit] at hnodup
    intro hmem
    exact (List.nodup_append.mp hnodup).2.2 _ hmem _ List.mem_cons_self rfl
  have hplace : (l.filter fun y => f y = f x).idxOf x =
      (l.take i).countP fun y => f y = f x := by
    have hfilter : (l.filter fun y => f y = f x) =
        ((l.take i).filter fun y => f y = f x) ++
          x :: (l.drop (i + 1)).filter fun y => f y = f x := by
      conv_lhs => rw [hsplit, List.filter_append, List.filter_cons_of_pos (by simp)]
    have hnotin : x ∉ (l.take i).filter fun y => f y = f x :=
      fun h => hbefore (List.mem_filter.mp h).1
    rw [hfilter, List.idxOf_append_of_notMem hnotin, List.idxOf_cons_self, Nat.add_zero,
      List.countP_eq_length_filter]
  have hlt : i < (l.map f).length := by simpa using hi
  rw [getElem?_ranks hlt, hplace, List.getElem_map, hxi, ← List.map_take, List.count,
    List.countP_map]
  exact congrArg some (List.countP_congr fun y _ => by simp)

/-- A run of a key before the entries of other keys: one more distinct key. -/
theorem eraseDups_replicate_append {n : Nat} (hn : 0 < n) {k : κ} {ks : List κ}
    (hk : k ∉ ks) : (List.replicate n k ++ ks).eraseDups = k :: ks.eraseDups := by
  have hfilter : (ks.filter fun l => !l == k) = ks := by
    apply List.filter_eq_self.mpr
    intro l hl
    have hne : l ≠ k := fun h => hk (h ▸ hl)
    simp [hne]
  obtain ⟨n, rfl⟩ : ∃ m, n = m + 1 := ⟨n - 1, by omega⟩
  rw [List.replicate_succ, List.cons_append, List.eraseDups_cons, List.filter_append, hfilter]
  congr 2
  simp

/-- A run of a key before the entries of other keys: the ranks start anew. -/
theorem ranks_replicate_append (n : Nat) {k : κ} {ks : List κ} (hk : k ∉ ks) :
    ranks (List.replicate n k ++ ks) = List.range n ++ ranks ks := by
  induction ks using List.reverseRecOn with
  | nil =>
      rw [List.append_nil, show ranks ([] : List κ) = [] from rfl, List.append_nil]
      induction n with
      | zero => rfl
      | succ n ih =>
          rw [List.replicate_succ', ranks_concat, ih, List.count_replicate_self,
            List.range_succ]
  | append_singleton ks l ih =>
      rw [List.mem_append, List.mem_singleton, not_or] at hk
      have hne : l ≠ k := fun h => hk.2 h.symm
      rw [← List.append_assoc, ranks_concat, ih hk.1, ranks_concat, List.append_assoc,
        List.count_append, List.count_replicate, if_neg (by simpa using hne.symm),
        Nat.zero_add]

/-- The occurrences of every key are consecutive. -/
def Grouped (ks : List κ) : Prop :=
  ∀ i j l (hl : l < ks.length) (hij : i < j) (hjl : j < l),
    ks[i] = ks[l] → ks[j] = ks[l]

instance (ks : List κ) : Decidable (Grouped ks) :=
  decidable_of_iff
    (∀ l : Fin ks.length, ∀ j : Fin l.val, ∀ i : Fin j.val,
      ks[i.val] = ks[l.val] → ks[j.val] = ks[l.val])
    ⟨fun h i j l hl hij hjl => h ⟨l, hl⟩ ⟨j, hjl⟩ ⟨i, hij⟩,
      fun h l j i => h i.val j.val l.val l.isLt i.isLt j.isLt⟩

/-- Place, among the keys met so far, of the key met last for the first time
when the pass has handled `ks`. -/
def newest (ks : List κ) : Nat := ks.eraseDups.length - 1

theorem newest_mono (ks ls : List κ) : newest ks ≤ newest (ks ++ ls) := by
  have := (prefix_eraseDups ks ls).length_le
  unfold newest
  omega

/-- A key that is new is the newest. -/
theorem newest_concat_of_notMem {ks : List κ} {k : κ} (hk : k ∉ ks) :
    newest (ks ++ [k]) = (ks ++ [k]).eraseDups.idxOf k := by
  have hk' : k ∉ ks.eraseDups := by simpa [List.mem_eraseDups] using hk
  simp [newest, eraseDups_concat, hk, List.idxOf_append_of_notMem hk']

/-- A key met before changes nothing. -/
theorem newest_concat_of_mem {ks : List κ} {k : κ} (hk : k ∈ ks) :
    newest (ks ++ [k]) = newest ks := by
  simp [newest, eraseDups_concat, hk]

/-- What a pass records that notes the newest key for every entry. -/
def newests (ks : List κ) : List Nat :=
  ks.mapIdx fun i _ => newest (ks.take (i + 1))

@[simp] theorem length_newests (ks : List κ) : (newests ks).length = ks.length := by
  simp [newests]

theorem newests_concat (ks : List κ) (k : κ) :
    newests (ks ++ [k]) = newests ks ++ [newest (ks ++ [k])] := by
  unfold newests
  rw [List.mapIdx_concat]
  congr 1
  · apply List.mapIdx_eq_mapIdx_iff.mpr
    intro i hi
    rw [List.take_append_of_le_length hi]
  · rw [List.take_of_length_le (by simp)]

/-- The key of entry `i` stands where the keys met up to `i` put it. -/
theorem idxOf_take_succ {ks : List κ} {i : Nat} (hi : i < ks.length) :
    (ks.take (i + 1)).eraseDups.idxOf ks[i] = ks.eraseDups.idxOf ks[i] := by
  have hmem : ks[i] ∈ ks.take (i + 1) :=
    List.mem_take_iff_getElem.mpr ⟨i, by omega, rfl⟩
  have h := idxOf_eraseDups_append (ks.drop (i + 1)) hmem
  rw [List.take_append_drop] at h
  exact h.symm

theorem newest_take_mono {ks : List κ} {i j : Nat} (hij : i ≤ j) :
    newest (ks.take i) ≤ newest (ks.take j) := by
  have h := newest_mono (ks.take i) ((ks.take j).drop i)
  have hsplit : ks.take i = (ks.take j).take i := by
    rw [List.take_take, Nat.min_eq_left hij]
  rw [hsplit, List.take_append_drop] at h
  rwa [hsplit]

/-- A pass that records the newest key for every entry records the entry's own
key throughout exactly when equal keys are consecutive. -/
theorem newest_eq_idxOf_iff_grouped (ks : List κ) :
    (∀ i (hi : i < ks.length),
      newest (ks.take (i + 1)) = ks.eraseDups.idxOf ks[i]) ↔ Grouped ks := by
  constructor
  · intro h i j l hl hij hjl heq
    have hi := h i (by omega)
    have hj := h j (by omega)
    have hil := h l hl
    rw [heq] at hi
    have hup : newest (ks.take (i + 1)) ≤ newest (ks.take (j + 1)) :=
      newest_take_mono (by omega)
    have hdown : newest (ks.take (j + 1)) ≤ newest (ks.take (l + 1)) :=
      newest_take_mono (by omega)
    exact eq_of_idxOf_eraseDups_eq (List.getElem_mem _) (by omega)
  · intro hgrouped i hi
    induction i with
    | zero =>
        have hnew := @newest_concat_of_notMem κ _ [] ks[0] (by simp)
        rw [← idxOf_take_succ hi, List.take_succ_eq_append_getElem hi]
        exact hnew
    | succ i ih =>
        have hlt : i < ks.length := by omega
        rw [← idxOf_take_succ hi, List.take_succ_eq_append_getElem hi]
        by_cases hmem : ks[i + 1] ∈ ks.take (i + 1)
        · have hprev : ks[i] = ks[i + 1] := by
            obtain ⟨k, hk, hkeq⟩ := List.getElem_of_mem hmem
            rw [List.getElem_take] at hkeq
            have hki : k < i + 1 := by
              rw [List.length_take] at hk
              omega
            by_cases hki' : k = i
            · subst hki'
              exact hkeq
            · exact hgrouped k i (i + 1) hi (by omega) (by omega) hkeq
          rw [newest_concat_of_mem hmem, ih hlt, ← idxOf_take_succ hlt,
            idxOf_eraseDups_append _ hmem, hprev]
        · exact newest_concat_of_notMem hmem

/-- **Grouped keys.**  `newest_eq_idxOf_iff_grouped` for the whole list that
the pass records. -/
theorem newests_eq_iff_grouped (ks : List κ) :
    newests ks = ks.map (fun k => ks.eraseDups.idxOf k) ↔ Grouped ks := by
  rw [← newest_eq_idxOf_iff_grouped]
  constructor
  · intro h i hi
    have hi' := congrArg (fun l : List Nat => l[i]?) h
    simpa [newests, hi] using hi'
  · intro h
    apply List.ext_getElem (by simp)
    intro i hi _
    have hi' : i < ks.length := by simpa using hi
    simpa [newests] using h i hi'

/-- Ascending keys are grouped. -/
theorem grouped_of_pairwise_le {ks : List Nat} (h : ks.Pairwise (· ≤ ·)) :
    Grouped ks := by
  intro i j l hl hij hjl heq
  have hle := List.pairwise_iff_getElem.mp h
  have hi := hle i j (by omega) (by omega) hij
  have hj := hle j l (by omega) hl hjl
  omega

theorem idxOf_range {k n : Nat} (hk : k < n) : (List.range n).idxOf k = k := by
  have h := List.nodup_range.idxOf_getElem k (by simpa using hk)
  rwa [List.getElem_range] at h

/-- Where keys appear in the order `0, 1, …`, the newest key is the greatest. -/
theorem newest_take_eq_iff {ks : List Nat} {m : Nat} (hks : ks.eraseDups = List.range m) {i : Nat}
    (hi : i < ks.length) :
    newest (ks.take (i + 1)) = ks[i] ↔ ∀ j (hj : j < i), ks[j] ≤ ks[i] := by
  obtain ⟨d, hd⟩ : ∃ d, (ks.take (i + 1)).eraseDups = List.range d := by
    have hprefix := prefix_eraseDups (ks.take (i + 1)) (ks.drop (i + 1))
    rw [List.take_append_drop, hks] at hprefix
    refine ⟨min (ks.take (i + 1)).eraseDups.length m, ?_⟩
    rw [← List.take_range]
    exact List.prefix_iff_eq_take.mp hprefix
  have hmem : ∀ k, k < d ↔ k ∈ ks.take (i + 1) := by
    intro k
    rw [← List.mem_range, ← hd, List.mem_eraseDups]
  have hown : ks[i] < d := (hmem _).mpr (List.mem_take_iff_getElem.mpr ⟨i, by omega, rfl⟩)
  rw [newest, hd, List.length_range]
  constructor
  · intro heq j hj
    have hlt : ks[j] < d := (hmem _).mpr (List.mem_take_iff_getElem.mpr ⟨j, by omega, rfl⟩)
    omega
  · intro hle
    obtain ⟨j, hj, hkey⟩ := List.mem_take_iff_getElem.mp ((hmem (d - 1)).mp (by omega))
    rcases Nat.lt_or_ge j i with hlt | hge
    · have := hle j hlt
      omega
    · have hji : j = i := by omega
      subst hji
      exact hkey.symm

/-- The newest key stands behind that of the entry. -/
theorem idxOf_le_newest {ks : List κ} {i : Nat} (hi : i < ks.length) :
    ks.eraseDups.idxOf ks[i] ≤ newest (ks.take (i + 1)) := by
  have hmem : ks[i] ∈ (ks.take (i + 1)).eraseDups :=
    List.mem_eraseDups.mpr (List.mem_take_iff_getElem.mpr ⟨i, by omega, rfl⟩)
  have hlt := List.idxOf_lt_length_of_mem hmem
  rw [idxOf_take_succ hi] at hlt
  unfold newest
  omega

/-- Where a key appears first, it is the newest. -/
theorem newest_take_idxOf {ks : List κ} {k : κ} (hk : k ∈ ks) :
    newest (ks.take (ks.idxOf k + 1)) = ks.eraseDups.idxOf k := by
  have hlt := List.idxOf_lt_length_of_mem hk
  have hkey : ks[ks.idxOf k] = k := List.getElem_idxOf hlt
  have hnew : k ∉ ks.take (ks.idxOf k) := by
    rw [List.mem_take_iff_idxOf_lt hk]
    exact Nat.lt_irrefl _
  have hplace := idxOf_take_succ hlt
  rw [List.take_succ_eq_append_getElem hlt, hkey] at hplace ⊢
  rw [newest_concat_of_notMem hnew, hplace]

/-- The newest key of a part is a key of the whole. -/
theorem newest_take_lt {ks : List κ} {i : Nat} (hi : i < ks.length) :
    newest (ks.take (i + 1)) < ks.eraseDups.length := by
  have hle := newest_mono (ks.take (i + 1)) (ks.drop (i + 1))
  rw [List.take_append_drop] at hle
  have hpos : 0 < ks.eraseDups.length :=
    List.length_pos_of_mem (List.mem_eraseDups.mpr (List.getElem_mem hi))
  unfold newest at hle ⊢
  omega

end FirstOccurrence
