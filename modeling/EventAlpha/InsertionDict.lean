import Mathlib.Data.Finset.Insert
import Mathlib.Data.List.Induction
import Mathlib.Data.List.Nodup
import Mathlib.Data.List.Perm.Basic

/-!
# Insertion-ordered dictionaries

A finite map that iterates in the order in which its keys were first written,
as the dictionaries of most scripting languages do.  The list of entries never
holds a key twice, and that fact travels with the value as a field.

Every statement about a dictionary reduces to one fact per operation:

* `get?_eq_some_iff` — a lookup is membership of the entry;
* `mem_entries_set` — what one write leaves behind;
* `mem_entries_ofList` — what a loop of writes leaves behind when equal keys
  carry equal values;
* `mem_getD_collect` — what a loop of `setdefault(key, set()).add(item)`
  leaves behind;
* `getD_get?_gather` — what a loop of `setdefault(key, []).append(item)`
  leaves behind.
-/

/-- A finite map remembering the order in which its keys were first written. -/
structure InsertionDict (κ ν : Type*) where
  entries : List (κ × ν)
  nodup_keys : (entries.map Prod.fst).Nodup

namespace InsertionDict

variable {κ ν ι : Type*}

/-- The keys in insertion order. -/
def keys (d : InsertionDict κ ν) : List κ := d.entries.map Prod.fst

/-- The values in insertion order. -/
def values (d : InsertionDict κ ν) : List ν := d.entries.map Prod.snd

/-- The dictionary without entries. -/
def empty : InsertionDict κ ν := ⟨[], List.nodup_nil⟩

/-- Dictionaries with the same entries are equal. -/
theorem ext {d d' : InsertionDict κ ν} (h : d.entries = d'.entries) : d = d' := by
  cases d
  cases d'
  simpa using h

theorem mem_values {d : InsertionDict κ ν} {v : ν} :
    v ∈ d.values ↔ ∃ k, (k, v) ∈ d.entries := by
  simp [values]

theorem mem_keys {d : InsertionDict κ ν} {k : κ} :
    k ∈ d.keys ↔ ∃ v, (k, v) ∈ d.entries := by
  simp [keys]

/-- A key carries one value. -/
theorem value_unique {d : InsertionDict κ ν} {k : κ} {v w : ν}
    (hv : (k, v) ∈ d.entries) (hw : (k, w) ∈ d.entries) : v = w := by
  have h := List.inj_on_of_nodup_map d.nodup_keys hv hw rfl
  exact congrArg Prod.snd h

variable [DecidableEq κ]

/-- The value of a key, `dict.get(key)`. -/
def get? (d : InsertionDict κ ν) (k : κ) : Option ν :=
  (d.entries.find? (fun entry => entry.1 = k)).map Prod.snd

/-- Writing a key keeps its place when it has one and appends it otherwise. -/
def setEntries (entries : List (κ × ν)) (k : κ) (v : ν) : List (κ × ν) :=
  if k ∈ entries.map Prod.fst then
    entries.map (fun entry => if entry.1 = k then (k, v) else entry)
  else entries ++ [(k, v)]

theorem map_fst_setEntries (entries : List (κ × ν)) (k : κ) (v : ν) :
    (setEntries entries k v).map Prod.fst =
      if k ∈ entries.map Prod.fst then entries.map Prod.fst
      else entries.map Prod.fst ++ [k] := by
  unfold setEntries
  split
  · rw [List.map_map]
    apply List.map_congr_left
    intro entry _
    by_cases h : entry.1 = k <;> simp [h]
  · simp

theorem nodup_setEntries {entries : List (κ × ν)}
    (h : (entries.map Prod.fst).Nodup) (k : κ) (v : ν) :
    ((setEntries entries k v).map Prod.fst).Nodup := by
  rw [map_fst_setEntries]
  split
  · exact h
  · rename_i hk
    refine List.nodup_append.mpr ⟨h, List.nodup_singleton k, ?_⟩
    intro a ha b hb heq
    obtain rfl := heq
    exact hk (List.mem_singleton.mp hb ▸ ha)

/-- `dict[key] = value`. -/
def set (d : InsertionDict κ ν) (k : κ) (v : ν) : InsertionDict κ ν :=
  ⟨setEntries d.entries k v, nodup_setEntries d.nodup_keys k v⟩

/-- A lookup succeeds with `v` exactly when the entry `(k, v)` is stored. -/
theorem get?_eq_some_iff {d : InsertionDict κ ν} {k : κ} {v : ν} :
    d.get? k = some v ↔ (k, v) ∈ d.entries := by
  unfold get?
  constructor
  · intro h
    obtain ⟨⟨j, w⟩, hfind, hw⟩ := Option.map_eq_some_iff.mp h
    have hj : j = k := by simpa using List.find?_some hfind
    have hw' : w = v := hw
    subst hj hw'
    exact List.mem_of_find?_eq_some hfind
  · intro hmem
    cases hfind : d.entries.find? (fun entry => decide (entry.1 = k)) with
    | none =>
        have := List.find?_eq_none.mp hfind (k, v) hmem
        simp at this
    | some entry =>
        obtain ⟨j, w⟩ := entry
        have hj : j = k := by simpa using List.find?_some hfind
        subst hj
        have hw := value_unique (List.mem_of_find?_eq_some hfind) hmem
        simp [hw]

/-- What holds of every entry holds of every lookup. -/
theorem forall_get? {d : InsertionDict κ ν} {p : κ → ν → Prop}
    (h : ∀ entry ∈ d.entries, p entry.1 entry.2) : ∀ k v, d.get? k = some v → p k v :=
  fun _ _ hget => h _ (get?_eq_some_iff.mp hget)

theorem get?_eq_none_iff {d : InsertionDict κ ν} {k : κ} :
    d.get? k = none ↔ k ∉ d.keys := by
  rw [Option.eq_none_iff_forall_ne_some, mem_keys, not_exists]
  simp only [ne_eq, get?_eq_some_iff]

/-- Lookups do not see the order of insertion. -/
theorem get?_eq_of_perm {d d' : InsertionDict κ ν} (h : d.entries.Perm d'.entries) (k : κ) :
    d.get? k = d'.get? k := by
  refine Option.ext ?_
  intro v
  rw [get?_eq_some_iff, get?_eq_some_iff]
  exact h.mem_iff

theorem mem_values_iff_get? {d : InsertionDict κ ν} {v : ν} :
    v ∈ d.values ↔ ∃ k, d.get? k = some v := by
  simp only [mem_values, get?_eq_some_iff]

@[simp] theorem get?_empty (k : κ) : (empty : InsertionDict κ ν).get? k = none := rfl

/-- One write replaces the entry of its key and leaves every other entry. -/
theorem mem_entries_set {d : InsertionDict κ ν} {k j : κ} {v w : ν} :
    (j, w) ∈ (d.set k v).entries ↔
      (j = k ∧ w = v) ∨ (j ≠ k ∧ (j, w) ∈ d.entries) := by
  show (j, w) ∈ setEntries d.entries k v ↔ _
  unfold setEntries
  split
  · rename_i hk
    obtain ⟨⟨k', u⟩, hu, rfl⟩ := List.mem_map.mp hk
    rw [List.mem_map]
    constructor
    · intro hex
      obtain ⟨⟨i, x⟩, hx, heq⟩ := hex
      by_cases hi : i = k'
      · simp only [hi, if_true, Prod.mk.injEq] at heq
        exact Or.inl ⟨heq.1.symm, heq.2.symm⟩
      · simp only [hi, if_false, Prod.mk.injEq] at heq
        obtain ⟨rfl, rfl⟩ := heq
        exact Or.inr ⟨hi, hx⟩
    · intro hor
      rcases hor with ⟨rfl, rfl⟩ | ⟨hj, hw⟩
      · exact ⟨(j, u), hu, by simp⟩
      · exact ⟨(j, w), hw, by simpa using fun h => absurd h hj⟩
  · rename_i hk
    rw [List.mem_append, List.mem_singleton, Prod.mk.injEq]
    constructor
    · intro hor
      rcases hor with hold | hnew
      · refine Or.inr ⟨?_, hold⟩
        intro heq
        obtain rfl := heq
        exact hk (List.mem_map.mpr ⟨_, hold, rfl⟩)
      · exact Or.inl hnew
    · intro hor
      rcases hor with hnew | ⟨_, hold⟩
      · exact Or.inr hnew
      · exact Or.inl hold

/-- What every stored value has and a new one too, every value has after the write. -/
theorem forall_mem_values_set {p : ν → Prop} {d : InsertionDict κ ν} {k : κ} {v : ν}
    (h : ∀ w ∈ d.values, p w) (hnew : p v) : ∀ w ∈ (d.set k v).values, p w := by
  intro w hmem
  obtain ⟨j, hentry⟩ := mem_values.mp hmem
  rcases mem_entries_set.mp hentry with ⟨-, rfl⟩ | ⟨-, hold⟩
  · exact hnew
  · exact h w (mem_values.mpr ⟨j, hold⟩)

/-- A lookup after one write. -/
theorem get?_set (d : InsertionDict κ ν) (k j : κ) (v : ν) :
    (d.set k v).get? j = if j = k then some v else d.get? j := by
  apply Option.ext
  intro w
  rw [get?_eq_some_iff, mem_entries_set]
  by_cases hj : j = k
  · simp [hj, eq_comm]
  · simp [hj, get?_eq_some_iff]

@[simp] theorem get?_set_self (d : InsertionDict κ ν) (k : κ) (v : ν) :
    (d.set k v).get? k = some v := by
  simp [get?_set]

theorem get?_set_of_ne (d : InsertionDict κ ν) {k j : κ} (v : ν) (h : j ≠ k) :
    (d.set k v).get? j = d.get? j := by
  simp [get?_set, h]

/-- Writing a new key appends its entry. -/
theorem entries_set_of_notMem {d : InsertionDict κ ν} {k : κ} (h : k ∉ d.keys)
    (v : ν) : (d.set k v).entries = d.entries ++ [(k, v)] := by
  show setEntries d.entries k v = _
  unfold setEntries
  exact if_neg h

theorem values_set_of_notMem {d : InsertionDict κ ν} {k : κ} (h : k ∉ d.keys)
    (v : ν) : (d.set k v).values = d.values ++ [v] := by
  rw [values, entries_set_of_notMem h, List.map_append, List.map_singleton]
  rfl

/-- A dictionary filled from a list under distinct keys grows with the list. -/
theorem entries_set_image {d : InsertionDict κ ν} {images : List ι} {k : ι → κ} {v : ι → ν}
    (h : d.entries = images.map (fun i => (k i, v i))) {i : ι}
    (hnew : ∀ j ∈ images, k j ≠ k i) :
    (d.set (k i) (v i)).entries = (images ++ [i]).map (fun j => (k j, v j)) := by
  have hkey : k i ∉ d.keys := by
    rw [keys, h, List.map_map]
    simpa using hnew
  rw [entries_set_of_notMem hkey, h, List.map_append, List.map_singleton]

theorem keys_set (d : InsertionDict κ ν) (k : κ) (v : ν) :
    (d.set k v).keys = if k ∈ d.keys then d.keys else d.keys ++ [k] :=
  map_fst_setEntries d.entries k v

theorem mem_keys_set {d : InsertionDict κ ν} {k j : κ} {v : ν} :
    j ∈ (d.set k v).keys ↔ j = k ∨ j ∈ d.keys := by
  rw [keys_set]
  by_cases hk : k ∈ d.keys
  · rw [if_pos hk]
    refine ⟨Or.inr, ?_⟩
    intro hor
    rcases hor with rfl | hj
    · exact hk
    · exact hj
  · rw [if_neg hk]
    simp [or_comm]

/-- The entries whose values pass, in their order. -/
def filterValues (p : ν → Bool) (d : InsertionDict κ ν) : InsertionDict κ ν :=
  ⟨d.entries.filter (fun entry => p entry.2),
    d.nodup_keys.sublist (List.filter_sublist.map Prod.fst)⟩

theorem get?_filterValues {p : ν → Bool} {d : InsertionDict κ ν} {k : κ} {v : ν} :
    (d.filterValues p).get? k = some v ↔ d.get? k = some v ∧ p v = true := by
  rw [get?_eq_some_iff, get?_eq_some_iff, filterValues, List.mem_filter]

omit [DecidableEq κ] in
theorem values_filterValues (p : ν → Bool) (d : InsertionDict κ ν) :
    (d.filterValues p).values = d.values.filter p := by
  rw [values, values, filterValues, List.filter_map]
  rfl

/-- Writing a value that passes, over nothing or over another that passes. -/
theorem filterValues_set_of_pos {p : ν → Bool} {d : InsertionDict κ ν} {k : κ} {v : ν}
    (hv : p v = true) (hold : ∀ w, d.get? k = some w → p w = true) :
    (d.set k v).filterValues p = (d.filterValues p).set k v := by
  apply ext
  show (setEntries d.entries k v).filter _ = setEntries (d.entries.filter _) k v
  have hkeep : ∀ entry ∈ d.entries, entry.1 = k → p entry.2 = true := by
    intro entry hmem hkey
    apply hold entry.2
    rw [get?_eq_some_iff, ← hkey]
    exact hmem
  unfold setEntries
  by_cases hk : k ∈ d.entries.map Prod.fst
  · have hk' : k ∈ (d.entries.filter (fun entry => p entry.2)).map Prod.fst := by
      obtain ⟨entry, hmem, hkey⟩ := List.mem_map.mp hk
      exact List.mem_map.mpr ⟨entry, List.mem_filter.mpr ⟨hmem, hkeep entry hmem hkey⟩, hkey⟩
    rw [if_pos hk, if_pos hk', List.filter_map]
    apply congrArg (List.map _)
    apply List.filter_congr
    intro entry hmem
    by_cases hkey : entry.1 = k
    · simp [hkey, hv, hkeep entry hmem hkey]
    · simp [hkey]
  · have hk' : k ∉ (d.entries.filter (fun entry => p entry.2)).map Prod.fst := by
      intro hmem
      exact hk ((List.filter_sublist.map Prod.fst).subset hmem)
    rw [if_neg hk, if_neg hk', List.filter_append]
    simp [hv]

/-- Writing a value that does not pass, over nothing or over another such. -/
theorem filterValues_set_of_neg {p : ν → Bool} {d : InsertionDict κ ν} {k : κ} {v : ν}
    (hv : p v = false) (hold : ∀ w, d.get? k = some w → p w = false) :
    (d.set k v).filterValues p = d.filterValues p := by
  apply ext
  show (setEntries d.entries k v).filter _ = d.entries.filter _
  unfold setEntries
  split
  · rw [List.filter_map]
    have hdrop : ∀ entry ∈ d.entries, entry.1 = k → p entry.2 = false := by
      intro entry hmem hkey
      apply hold entry.2
      rw [get?_eq_some_iff, ← hkey]
      exact hmem
    have hfilter : d.entries.filter ((fun entry => p entry.2) ∘
        fun entry => if entry.1 = k then (k, v) else entry) =
          d.entries.filter (fun entry => p entry.2) := by
      apply List.filter_congr
      intro entry hmem
      by_cases hkey : entry.1 = k
      · simp [hkey, hv, hdrop entry hmem hkey]
      · simp [hkey]
    rw [hfilter]
    conv_rhs => rw [← List.map_id (d.entries.filter (fun entry => p entry.2))]
    apply List.map_congr_left
    intro entry hmem
    obtain ⟨hentry, hpass⟩ := List.mem_filter.mp hmem
    have hkey : entry.1 ≠ k := by
      intro hkey
      rw [hdrop entry hentry hkey] at hpass
      exact absurd hpass (by simp)
    simp [hkey]
  · rw [List.filter_append]
    simp [hv]

/-- `dict[key] = value` for every pair of a list, in order. -/
def ofList (pairs : List (κ × ν)) : InsertionDict κ ν :=
  pairs.foldl (fun d pair => d.set pair.1 pair.2) empty

private theorem mem_entries_foldl_set (pairs : List (κ × ν))
    (hfun : ∀ p ∈ pairs, ∀ q ∈ pairs, p.1 = q.1 → p.2 = q.2)
    (d : InsertionDict κ ν) (k : κ) (v : ν) :
    (k, v) ∈ (pairs.foldl (fun d pair => d.set pair.1 pair.2) d).entries ↔
      (k, v) ∈ pairs ∨ ((∀ p ∈ pairs, p.1 ≠ k) ∧ (k, v) ∈ d.entries) := by
  induction pairs generalizing d with
  | nil => simp
  | cons pair pairs ih =>
      obtain ⟨j, w⟩ := pair
      rw [List.foldl_cons, ih (fun p hp q hq => hfun p (List.mem_cons_of_mem _ hp)
        q (List.mem_cons_of_mem _ hq)), mem_entries_set]
      by_cases hj : k = j
      · subst hj
        have hself : ∀ u, (k, u) ∈ pairs → u = w := fun u hu =>
          hfun (k, u) (List.mem_cons_of_mem _ hu) (k, w) List.mem_cons_self rfl
        by_cases hrest : ∃ u, (k, u) ∈ pairs
        · obtain ⟨u, hu⟩ := hrest
          have hwv : (k, v) ∈ pairs ↔ v = w :=
            ⟨hself v, fun hv => hv ▸ hself u hu ▸ hu⟩
          simp [hwv]
        · have hall : ∀ p ∈ pairs, p.1 ≠ k := by
            intro entry hp heq'
            obtain ⟨i, u⟩ := entry
            obtain rfl := heq'
            exact hrest ⟨u, hp⟩
          have hnot : (k, v) ∉ pairs := fun hv => hrest ⟨v, hv⟩
          have hother : ∀ i u, (i, u) ∈ pairs → i ≠ k := fun i u hu => hall (i, u) hu
          simpa [hnot] using fun _ => hother
      · have hj' : j ≠ k := fun h => hj h.symm
        simp [hj, hj']

/-- A loop of writes in which equal keys carry equal values stores exactly its
pairs. -/
theorem mem_entries_ofList {pairs : List (κ × ν)}
    (hfun : ∀ p ∈ pairs, ∀ q ∈ pairs, p.1 = q.1 → p.2 = q.2) {k : κ} {v : ν} :
    (k, v) ∈ (ofList pairs).entries ↔ (k, v) ∈ pairs := by
  rw [ofList, mem_entries_foldl_set pairs hfun]
  simp [empty]

/-- A loop of writes stores only pairs it was given. -/
theorem mem_of_mem_entries_ofList {pairs : List (κ × ν)} {k : κ} {v : ν}
    (h : (k, v) ∈ (ofList pairs).entries) : (k, v) ∈ pairs := by
  induction pairs using List.reverseRecOn with
  | nil => simp [ofList, empty] at h
  | append_singleton pairs pair ih =>
      rw [ofList, List.foldl_append, List.foldl_cons, List.foldl_nil, mem_entries_set] at h
      rcases h with ⟨rfl, rfl⟩ | ⟨_, hold⟩
      · simp
      · exact List.mem_append_left _ (ih hold)

/-- A loop of writes stores every key it was given. -/
theorem mem_keys_ofList {pairs : List (κ × ν)} {k : κ} :
    k ∈ (ofList pairs).keys ↔ ∃ pair ∈ pairs, pair.1 = k := by
  induction pairs using List.reverseRecOn with
  | nil => simp [ofList, empty, keys]
  | append_singleton pairs pair ih =>
      have hsnoc : ofList (pairs ++ [pair]) = (ofList pairs).set pair.1 pair.2 := by
        rw [ofList, List.foldl_append]
        rfl
      rw [hsnoc, mem_keys_set, ih]
      constructor
      · intro h
        rcases h with rfl | ⟨old, hmem, hkey⟩
        · exact ⟨pair, by simp, rfl⟩
        · exact ⟨old, by simp [hmem], hkey⟩
      · intro h
        obtain ⟨old, hmem, hkey⟩ := h
        rcases List.mem_append.mp hmem with hold | hlast
        · exact Or.inr ⟨old, hold, hkey⟩
        · obtain rfl := List.mem_singleton.mp hlast
          exact Or.inl hkey.symm

theorem get?_ofList_eq_some_iff {pairs : List (κ × ν)}
    (hfun : ∀ p ∈ pairs, ∀ q ∈ pairs, p.1 = q.1 → p.2 = q.2) {k : κ} {v : ν} :
    (ofList pairs).get? k = some v ↔ (k, v) ∈ pairs := by
  rw [get?_eq_some_iff, mem_entries_ofList hfun]

section Sets

variable [DecidableEq ι]

/-- `dict.setdefault(key, set()).add(item)`. -/
def addTo (d : InsertionDict κ (Finset ι)) (k : κ) (i : ι) : InsertionDict κ (Finset ι) :=
  d.set k (insert i ((d.get? k).getD ∅))

theorem get?_addTo (d : InsertionDict κ (Finset ι)) (k j : κ) (i : ι) :
    (d.addTo k i).get? j =
      if j = k then some (insert i ((d.get? k).getD ∅)) else d.get? j :=
  get?_set d k j _

/-- `setdefault(key, set()).add(item)` for every pair of a list, in order. -/
def collect (pairs : List (κ × ι)) : InsertionDict κ (Finset ι) :=
  pairs.foldl (fun d pair => d.addTo pair.1 pair.2) empty

private theorem get?_foldl_addTo (pairs : List (κ × ι))
    (d : InsertionDict κ (Finset ι)) (k : κ) :
    (∀ i, i ∈ ((pairs.foldl (fun d pair => d.addTo pair.1 pair.2) d).get? k).getD ∅ ↔
      (k, i) ∈ pairs ∨ i ∈ (d.get? k).getD ∅) ∧
    ((pairs.foldl (fun d pair => d.addTo pair.1 pair.2) d).get? k = none ↔
      (∀ p ∈ pairs, p.1 ≠ k) ∧ d.get? k = none) := by
  induction pairs generalizing d with
  | nil => simp
  | cons pair pairs ih =>
      obtain ⟨j, x⟩ := pair
      rw [List.foldl_cons]
      obtain ⟨hmem, hnone⟩ := ih (d.addTo j x)
      constructor
      · intro i
        rw [hmem, get?_addTo]
        by_cases hk : k = j
        · subst hk
          simp only [if_true, Option.getD_some, Finset.mem_insert, List.mem_cons,
            Prod.mk.injEq, true_and]
          tauto
        · simp [hk]
      · rw [hnone, get?_addTo]
        by_cases hk : k = j
        · simp [hk]
        · have hk' : j ≠ k := fun h => hk h.symm
          simp [hk, hk']

/-- The collected set of a key holds exactly the items paired with it. -/
theorem mem_getD_collect {pairs : List (κ × ι)} {k : κ} {i : ι} :
    i ∈ ((collect pairs).get? k).getD ∅ ↔ (k, i) ∈ pairs := by
  rw [collect, (get?_foldl_addTo pairs empty k).1]
  simp

/-- A key is collected as soon as one pair names it. -/
theorem get?_collect_eq_none_iff {pairs : List (κ × ι)} {k : κ} :
    (collect pairs).get? k = none ↔ ∀ p ∈ pairs, p.1 ≠ k := by
  rw [collect, (get?_foldl_addTo pairs empty k).2]
  simp

end Sets

section Lists

/-- `dict.setdefault(key, []).append(item)` for every pair of a list, in order. -/
def gather (pairs : List (κ × ι)) : InsertionDict κ (List ι) :=
  pairs.foldl (fun d pair => d.set pair.1 ((d.get? pair.1).getD [] ++ [pair.2])) empty

private theorem get?_foldl_append (pairs : List (κ × ι)) (d : InsertionDict κ (List ι))
    (k : κ) :
    ((pairs.foldl (fun d pair => d.set pair.1 ((d.get? pair.1).getD [] ++ [pair.2])) d).get?
        k).getD [] =
      (d.get? k).getD [] ++ (pairs.filter (fun pair => pair.1 = k)).map Prod.snd := by
  induction pairs generalizing d with
  | nil => simp
  | cons pair pairs ih =>
      rw [List.foldl_cons, ih, get?_set]
      by_cases hk : k = pair.1
      · subst hk
        simp
      · have hk' : pair.1 ≠ k := fun h => hk h.symm
        simp [hk, hk']

/-- The gathered list of a key holds the items paired with it, in order. -/
theorem getD_get?_gather (pairs : List (κ × ι)) (k : κ) :
    ((gather pairs).get? k).getD [] =
      (pairs.filter (fun pair => pair.1 = k)).map Prod.snd := by
  rw [gather, get?_foldl_append]
  simp

end Lists

end InsertionDict
