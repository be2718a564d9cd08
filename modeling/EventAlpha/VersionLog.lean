import Mathlib.Data.List.Basic
import Mathlib.Data.List.GetD
import Mathlib.Data.List.Infix
import Mathlib.Data.List.Nodup

/-!
# Append-only logs of numbered versions

An append-only log in which every record belongs to one entity (`key`) and
carries a version `number`.  The log is `Numbered` when each record numbers
itself one past the records of its entity already in the log; nothing else is
assumed, and records of different entities may interleave in any way.

The whole theory hangs on one statement: in a numbered log the `v`-th record
of an entity (counted from zero) is exactly the record of that entity whose
number is `v + 1` (`Numbered.getElem?_ofKey_iff`).  Versions are therefore
contiguous from one, a version determines its record, the newest record
carries the count, and what made up an old version does not change when the
log grows (`take_ofKey_append`).
-/

namespace VersionLog

variable {α κ : Type*} [DecidableEq κ] (key : α → κ) (number : α → ℕ)

/-- The records of one entity, oldest first. -/
def ofKey (log : List α) (k : κ) : List α := log.filter (fun a => key a = k)

/-- The newest record of an entity. -/
def latest (log : List α) (k : κ) : Option α := (ofKey key log k).getLast?

/-- Each record numbers itself one past the records of its entity before it. -/
inductive Numbered : List α → Prop
  | nil : Numbered []
  | snoc {log : List α} {a : α} (h : Numbered log)
      (hnumber : number a = (ofKey key log (key a)).length + 1) :
      Numbered (log ++ [a])

variable {key number}

theorem mem_ofKey {log : List α} {k : κ} {a : α} :
    a ∈ ofKey key log k ↔ a ∈ log ∧ key a = k := by
  simp [ofKey]

/-- What a record of a longer log satisfies, an old one or the new one does. -/
theorem exists_mem_snoc {log : List α} {a : α} {p : α → Prop} :
    (∃ b ∈ log ++ [a], p b) ↔ (∃ b ∈ log, p b) ∨ p a := by
  simp only [List.mem_append, List.mem_singleton, or_and_right, exists_or, exists_eq_left]

theorem ofKey_snoc (log : List α) (a : α) (k : κ) :
    ofKey key (log ++ [a]) k =
      if key a = k then ofKey key log k ++ [a] else ofKey key log k := by
  by_cases h : key a = k <;> simp [ofKey, h]

theorem latest_snoc (log : List α) (a : α) (k : κ) :
    latest key (log ++ [a]) k = if key a = k then some a else latest key log k := by
  unfold latest
  rw [ofKey_snoc]
  split <;> simp

theorem ofKey_eq_nil_iff {log : List α} {k : κ} :
    ofKey key log k = [] ↔ ∀ a ∈ log, key a ≠ k := by
  simp [ofKey]

theorem latest_eq_none_iff {log : List α} {k : κ} :
    latest key log k = none ↔ ∀ a ∈ log, key a ≠ k := by
  rw [latest, List.getLast?_eq_none_iff, ofKey_eq_nil_iff]

theorem latest_mem {log : List α} {k : κ} {a : α} (h : latest key log k = some a) :
    a ∈ log ∧ key a = k :=
  mem_ofKey.mp (List.mem_of_getLast? h)

/-- The records of an entity only grow at the end. -/
theorem ofKey_append (log rest : List α) (k : κ) :
    ofKey key (log ++ rest) k = ofKey key log k ++ ofKey key rest k := by
  simp [ofKey]

/-- The records that made up an old version stay what they were. -/
theorem take_ofKey_append {log : List α} (rest : List α) {k : κ} {v : ℕ}
    (hv : v ≤ (ofKey key log k).length) :
    (ofKey key (log ++ rest) k).take v = (ofKey key log k).take v := by
  rw [ofKey_append, List.take_append_of_le_length hv]

/-- **Versions are positions.**  In a numbered log the `v`-th record of an
entity is the record of that entity with number `v + 1`. -/
theorem Numbered.getElem?_ofKey_iff {log : List α} (h : Numbered key number log)
    {k : κ} {v : ℕ} {a : α} :
    (ofKey key log k)[v]? = some a ↔ a ∈ log ∧ key a = k ∧ number a = v + 1 := by
  induction h generalizing v with
  | nil => simp [ofKey]
  | @snoc log b h hnumber ih =>
      rw [ofKey_snoc]
      by_cases hb : key b = k
      · subst hb
        rw [if_pos rfl]
        constructor
        · intro hget
          rcases lt_or_ge v (ofKey key log (key b)).length with hlt | hge
          · rw [List.getElem?_append_left hlt] at hget
            obtain ⟨hmem, hkey, hnum⟩ := ih.mp hget
            exact ⟨List.mem_append_left _ hmem, hkey, hnum⟩
          · rw [List.getElem?_append_right hge, List.getElem?_singleton] at hget
            split at hget
            · rename_i hv
              obtain rfl := Option.some.inj hget
              exact ⟨by simp, rfl, by omega⟩
            · exact absurd hget (by simp)
        · intro hand
          obtain ⟨hmem, hkey, hnum⟩ := hand
          rcases List.mem_append.mp hmem with hold | hnew
          · have hget := ih.mpr ⟨hold, hkey, hnum⟩
            obtain ⟨hlt, _⟩ := List.getElem?_eq_some_iff.mp hget
            rw [List.getElem?_append_left hlt]
            exact hget
          · obtain rfl := List.mem_singleton.mp hnew
            have hv : v = (ofKey key log (key a)).length := by omega
            simp [hv]
      · rw [if_neg hb, ih]
        constructor
        · intro hand
          obtain ⟨hmem, hkey, hnum⟩ := hand
          exact ⟨List.mem_append_left _ hmem, hkey, hnum⟩
        · intro hand
          obtain ⟨hmem, hkey, hnum⟩ := hand
          rcases List.mem_append.mp hmem with hold | hnew
          · exact ⟨hold, hkey, hnum⟩
          · obtain rfl := List.mem_singleton.mp hnew
            exact absurd hkey hb

/-- A record's number lies between one and the count of its entity. -/
theorem Numbered.number_bounds {log : List α} (h : Numbered key number log)
    {a : α} (ha : a ∈ log) :
    1 ≤ number a ∧ number a ≤ (ofKey key log (key a)).length := by
  have hself : a ∈ ofKey key log (key a) := mem_ofKey.mpr ⟨ha, rfl⟩
  obtain ⟨i, hi⟩ := List.mem_iff_getElem?.mp hself
  obtain ⟨_, _, hnum⟩ := h.getElem?_ofKey_iff.mp hi
  obtain ⟨hlt, _⟩ := List.getElem?_eq_some_iff.mp hi
  omega

/-- The record with a given number sits at the position before it. -/
theorem Numbered.getElem?_number {log : List α} (h : Numbered key number log)
    {a : α} (ha : a ∈ log) :
    (ofKey key log (key a))[number a - 1]? = some a := by
  have hpos := (h.number_bounds ha).1
  exact h.getElem?_ofKey_iff.mpr ⟨ha, rfl, by omega⟩

/-- Entity and number determine the record. -/
theorem Numbered.eq_of_number_eq {log : List α} (h : Numbered key number log)
    {a b : α} (ha : a ∈ log) (hb : b ∈ log) (hkey : key a = key b)
    (hnumber : number a = number b) : a = b := by
  have hgetA := h.getElem?_number ha
  have hgetB := h.getElem?_number hb
  rw [hkey, hnumber, hgetB] at hgetA
  exact (Option.some.inj hgetA).symm

/-- Every number up to the count belongs to a record. -/
theorem Numbered.exists_number {log : List α} (h : Numbered key number log)
    {k : κ} {v : ℕ} (hpos : 1 ≤ v) (hv : v ≤ (ofKey key log k).length) :
    ∃ a ∈ log, key a = k ∧ number a = v := by
  have hlt : v - 1 < (ofKey key log k).length := by omega
  obtain ⟨hmem, hkey, hnum⟩ :=
    h.getElem?_ofKey_iff.mp (List.getElem?_eq_getElem hlt)
  exact ⟨_, hmem, hkey, by omega⟩

/-- The newest record carries the count of its entity. -/
theorem Numbered.number_latest {log : List α} (h : Numbered key number log)
    {k : κ} {a : α} (hlatest : latest key log k = some a) :
    number a = (ofKey key log k).length := by
  rw [latest, List.getLast?_eq_getElem?] at hlatest
  obtain ⟨hlt, _⟩ := List.getElem?_eq_some_iff.mp hlatest
  obtain ⟨_, _, hnum⟩ := h.getElem?_ofKey_iff.mp hlatest
  omega

/-- The newest record is the one that carries the count. -/
theorem Numbered.latest_eq_some_iff {log : List α} (h : Numbered key number log)
    {k : κ} {a : α} :
    latest key log k = some a ↔
      a ∈ log ∧ key a = k ∧ number a = (ofKey key log k).length := by
  constructor
  · intro hlatest
    obtain ⟨hmem, hkey⟩ := latest_mem hlatest
    exact ⟨hmem, hkey, h.number_latest hlatest⟩
  · intro hand
    obtain ⟨hmem, hkey, hnum⟩ := hand
    have hpos := (h.number_bounds hmem).1
    rw [latest, List.getLast?_eq_getElem?]
    exact h.getElem?_ofKey_iff.mpr ⟨hmem, hkey, by omega⟩

/-- Within one entity, the records numbered at most `v` are its first `v`. -/
theorem Numbered.filter_number_le {log : List α} (h : Numbered key number log)
    (k : κ) (v : ℕ) :
    (ofKey key log k).filter (fun a => number a ≤ v) = (ofKey key log k).take v := by
  induction h with
  | nil => simp [ofKey]
  | @snoc log b h hnumber ih =>
      rw [ofKey_snoc]
      by_cases hb : key b = k
      · subst hb
        rw [if_pos rfl, List.filter_append, ih]
        by_cases hv : number b ≤ v
        · have hlen : (ofKey key log (key b)).length < v := by omega
          rw [List.take_of_length_le (Nat.le_of_lt hlen),
            List.take_of_length_le (by simp; omega)]
          simp [hv]
        · have hlen : v ≤ (ofKey key log (key b)).length := by omega
          rw [List.take_append_of_le_length hlen]
          simp [hv]
      · rw [if_neg hb, ih]

end VersionLog
