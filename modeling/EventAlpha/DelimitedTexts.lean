import Mathlib.Data.List.DropRight
import Mathlib.Data.List.Basic

/-!
# Delimited texts

Texts that list their fields between separators, with blanks around them that
do not count.  A text is split at every separator, or at the first few of them
only, so that the last field may contain more.  A field is what is left of a
piece without the blanks at its ends.

A field that has no blanks at its ends and none of the separators it must not
have is given back by the text that joins it with others (`fields_join`,
`splitAtMost_join`), and nothing else is ever read (`trimmed_strip`,
`notMem_of_mem_dropLast`).
-/

namespace DelimitedTexts

variable {α : Type*}

section Strip

variable (blank : α → Bool)

/-- A text without the blanks at its ends. -/
def strip (text : List α) : List α := (text.dropWhile blank).rdropWhile blank

/-- A text with no blank at its ends. -/
def Trimmed (text : List α) : Prop := strip blank text = text

instance [DecidableEq α] (text : List α) : Decidable (Trimmed blank text) := by
  unfold Trimmed; infer_instance

variable {blank} {text piece : List α}

theorem strip_subset : strip blank text ⊆ text := by
  intro c hc
  exact (List.dropWhile_sublist _).subset ((List.rdropWhile_prefix _ _).subset hc)

theorem strip_eq_nil_iff : strip blank text = [] ↔ ∀ c ∈ text, blank c = true := by
  rw [strip, List.rdropWhile_eq_nil_iff]
  constructor
  · intro hall c hc
    rw [← List.takeWhile_append_dropWhile (p := blank) (l := text), List.mem_append] at hc
    rcases hc with htake | hdrop
    · exact List.mem_takeWhile_imp htake
    · exact hall c hdrop
  · intro hall c hc
    exact hall c ((List.dropWhile_sublist _).subset hc)

/-- Nothing is left to strip of what is left. -/
theorem trimmed_strip (text : List α) : Trimmed blank (strip blank text) := by
  unfold Trimmed strip
  have hprefix : (text.dropWhile blank).rdropWhile blank <+: text.dropWhile blank :=
    List.rdropWhile_prefix _ _
  have hdrop : ((text.dropWhile blank).rdropWhile blank).dropWhile blank =
      (text.dropWhile blank).rdropWhile blank := by
    cases hleft : (text.dropWhile blank).rdropWhile blank with
    | nil => rfl
    | cons c left =>
        rw [hleft] at hprefix
        obtain ⟨rest, hrest⟩ := hprefix
        have hc : blank c = false := by
          have hnot := List.dropWhile_get_zero_not blank text
            (by rw [← hrest, List.cons_append, List.length_cons]; omega)
          simpa [← hrest] using hnot
        rw [List.dropWhile_cons_of_neg (by simp [hc])]
  rw [hdrop, List.rdropWhile_idempotent]

/-- The blanks before a character that is none are all that can go. -/
theorem exists_dropWhile_append {c : α} (hc : blank c = false) (before after : List α) :
    ∃ rest, (before ++ c :: after).dropWhile blank = rest ++ c :: after := by
  rw [List.dropWhile_append, List.dropWhile_cons_of_neg (by simp [hc])]
  split
  · exact ⟨[], rfl⟩
  · exact ⟨_, rfl⟩

/-- What is not blank is kept, and so is all that stands between. -/
theorem exists_strip_between {c d : α} (hc : blank c = false) (hd : blank d = false)
    (before middle after : List α) :
    ∃ before' after', strip blank (before ++ c :: (middle ++ d :: after)) =
      before' ++ c :: (middle ++ d :: after') := by
  obtain ⟨before', hbefore⟩ := exists_dropWhile_append hc before (middle ++ d :: after)
  have hreverse : (before' ++ c :: (middle ++ d :: after)).reverse =
      after.reverse ++ d :: (middle.reverse ++ c :: before'.reverse) := by simp
  obtain ⟨after', hafter⟩ :=
    exists_dropWhile_append hd after.reverse (middle.reverse ++ c :: before'.reverse)
  refine ⟨before', after'.reverse, ?_⟩
  rw [strip, hbefore, List.rdropWhile, hreverse, hafter]
  simp

theorem mem_strip {c : α} (hblank : blank c = false) (h : c ∈ text) : c ∈ strip blank text := by
  obtain ⟨before, after, rfl⟩ := List.append_of_mem h
  obtain ⟨before', hbefore⟩ := exists_dropWhile_append hblank before after
  have hreverse : (before' ++ c :: after).reverse = after.reverse ++ c :: before'.reverse := by simp
  obtain ⟨after', hafter⟩ := exists_dropWhile_append hblank after.reverse before'.reverse
  rw [strip, hbefore, List.rdropWhile, hreverse, hafter]
  simp

/-- A text that is not blank keeps what is not blank in it. -/
theorem strip_ne_nil {c : α} (hc : c ∈ text) (hblank : blank c = false) :
    strip blank text ≠ [] :=
  List.ne_nil_of_mem (mem_strip hblank hc)

theorem strip_of_plain (h : ∀ c ∈ text, blank c = false) : strip blank text = text := by
  have hdrop : text.dropWhile blank = text := by
    cases text with
    | nil => rfl
    | cons c rest => rw [List.dropWhile_cons_of_neg (by simp [h c List.mem_cons_self])]
  rw [strip, hdrop, List.rdropWhile_eq_self_iff]
  intro hne
  simp [h _ (List.getLast_mem hne)]

end Strip

section Fields

variable [DecidableEq α] (blank : α → Bool) (sep : α)

/-- The fields of a text, without those that are blank. -/
def fields (text : List α) : List (List α) :=
  ((text.splitOn sep).map (strip blank)).filter (fun field => field ≠ [])

variable {blank sep} {text piece : List α} {pieces : List (List α)}

theorem notMem_of_mem_splitOn (h : piece ∈ text.splitOn sep) : sep ∉ piece := by
  induction text generalizing piece with
  | nil =>
      rw [List.splitOn_nil, List.mem_singleton] at h
      rw [h]
      exact List.not_mem_nil
  | cons c text ih =>
      rw [List.splitOn_cons_eq_if_modifyHead] at h
      split at h
      · rcases List.mem_cons.mp h with rfl | hmem
        · exact List.not_mem_nil
        · exact ih hmem
      · rename_i hne
        obtain ⟨first, rest, hsplit⟩ :=
          List.exists_cons_of_ne_nil (List.splitOn_ne_nil sep text)
        rw [hsplit, List.modifyHead_cons] at h
        rcases List.mem_cons.mp h with rfl | hmem
        · have hfirst := ih (hsplit ▸ List.mem_cons_self)
          rw [List.mem_cons, not_or]
          exact ⟨fun heq => hne (by simp [heq]), hfirst⟩
        · exact ih (hsplit ▸ List.mem_cons_of_mem first hmem)

/-- The pieces hold everything but the separators. -/
theorem exists_mem_splitOn {c : α} (hne : c ≠ sep) (h : c ∈ text) :
    ∃ piece ∈ text.splitOn sep, c ∈ piece := by
  induction text with
  | nil => cases h
  | cons d text ih =>
      rw [List.splitOn_cons_eq_if_modifyHead]
      obtain ⟨first, pieces, hpieces⟩ :=
        List.exists_cons_of_ne_nil (List.splitOn_ne_nil sep text)
      rw [hpieces] at ih ⊢
      by_cases hd : (d == sep) = true
      · rw [if_pos hd]
        have htext : c ∈ text := by
          rcases List.mem_cons.mp h with rfl | h
          · exact absurd (beq_iff_eq.mp hd) hne
          · exact h
        obtain ⟨piece, hpiece, hc⟩ := ih htext
        exact ⟨piece, List.mem_cons_of_mem [] hpiece, hc⟩
      · rw [if_neg hd, List.modifyHead_cons]
        rcases List.mem_cons.mp h with rfl | h
        · exact ⟨c :: first, List.mem_cons_self, List.mem_cons_self⟩
        · obtain ⟨piece, hpiece, hc⟩ := ih h
          rcases List.mem_cons.mp hpiece with rfl | hpiece
          · exact ⟨d :: piece, List.mem_cons_self, List.mem_cons_of_mem d hc⟩
          · exact ⟨piece, List.mem_cons_of_mem _ hpiece, hc⟩

/-- What is read as a field may stand as one. -/
theorem of_mem_fields (h : piece ∈ fields blank sep text) :
    piece ≠ [] ∧ Trimmed blank piece ∧ sep ∉ piece := by
  obtain ⟨hmem, hne⟩ := List.mem_filter.mp h
  obtain ⟨whole, hwhole, rfl⟩ := List.mem_map.mp hmem
  refine ⟨of_decide_eq_true hne, trimmed_strip whole, ?_⟩
  exact fun hsep => notMem_of_mem_splitOn hwhole (strip_subset hsep)

/-- Fields are given back by the text that joins them. -/
theorem fields_join (hne : ∀ piece ∈ pieces, piece ≠ [])
    (htrimmed : ∀ piece ∈ pieces, Trimmed blank piece) (hplain : ∀ piece ∈ pieces, sep ∉ piece) :
    fields blank sep ([sep].intercalate pieces) = pieces := by
  cases pieces with
  | nil => simp [fields, strip]
  | cons first rest =>
      have hmap : (first :: rest).map (strip blank) = first :: rest := by
        conv_rhs => rw [← List.map_id (first :: rest)]
        exact List.map_congr_left htrimmed
      rw [fields, List.splitOn_intercalate sep hplain (List.cons_ne_nil _ _), hmap]
      exact List.filter_eq_self.mpr (fun piece hpiece => decide_eq_true (hne piece hpiece))

end Fields

section AtMost

variable [DecidableEq α]

/-- A text split at the first few separators. -/
def splitAtMost (sep : α) : ℕ → List α → List (List α)
  | 0, text => [text]
  | most + 1, text =>
      if sep ∈ text then
        text.takeWhile (fun c => c ≠ sep) ::
          splitAtMost sep most (text.dropWhile (fun c => c ≠ sep)).tail
      else [text]

variable {sep : α} {most : ℕ} {text : List α}

/-- A text begins with what stands before its first separator. -/
theorem takeWhile_append_tail (h : sep ∈ text) :
    text.takeWhile (fun c => c ≠ sep) ++ sep :: (text.dropWhile (fun c => c ≠ sep)).tail =
      text := by
  induction text with
  | nil => exact absurd h List.not_mem_nil
  | cons c text ih =>
      by_cases hc : c = sep
      · subst hc
        simp
      · have hmem : sep ∈ text := by
          rcases List.mem_cons.mp h with heq | hmem
          · exact absurd heq.symm hc
          · exact hmem
        rw [List.takeWhile_cons_of_pos (by simp [hc]), List.dropWhile_cons_of_pos (by simp [hc]),
          List.cons_append, ih hmem]

theorem splitAtMost_ne_nil (sep : α) (most : ℕ) (text : List α) :
    splitAtMost sep most text ≠ [] := by
  cases most with
  | zero => exact List.cons_ne_nil _ _
  | succ most =>
      unfold splitAtMost
      split
      · exact List.cons_ne_nil _ _
      · exact List.cons_ne_nil _ _

/-- Nothing is lost. -/
theorem intercalate_splitAtMost (sep : α) (most : ℕ) (text : List α) :
    [sep].intercalate (splitAtMost sep most text) = text := by
  induction most generalizing text with
  | zero => simp [splitAtMost]
  | succ most ih =>
      unfold splitAtMost
      split
      · rename_i hmem
        rw [List.intercalate_cons_of_ne_nil (splitAtMost_ne_nil _ _ _), ih]
        simpa using takeWhile_append_tail hmem
      · simp

/-- All pieces but the last are plain. -/
theorem notMem_of_mem_dropLast {piece : List α}
    (h : piece ∈ (splitAtMost sep most text).dropLast) : sep ∉ piece := by
  induction most generalizing text with
  | zero => simp [splitAtMost] at h
  | succ most ih =>
      unfold splitAtMost at h
      split at h
      · rw [List.dropLast_cons_of_ne_nil (splitAtMost_ne_nil _ _ _)] at h
        rcases List.mem_cons.mp h with rfl | hmem
        · intro hsep
          simpa using List.mem_takeWhile_imp hsep
        · exact ih hmem
      · simp at h

/-- Plain fields before a last one are given back by the text that joins
them. -/
theorem splitAtMost_join {plain : List (List α)} (hplain : ∀ field ∈ plain, sep ∉ field)
    (last : List α) :
    splitAtMost sep plain.length ([sep].intercalate (plain ++ [last])) = plain ++ [last] := by
  induction plain with
  | nil => simp [splitAtMost]
  | cons first plain ih =>
      rw [List.forall_mem_cons] at hplain
      obtain ⟨hfirst, hrest⟩ := hplain
      have hjoin : [sep].intercalate (first :: plain ++ [last]) =
          first ++ sep :: [sep].intercalate (plain ++ [last]) := by
        rw [List.cons_append, List.intercalate_cons_of_ne_nil (by simp)]
        simp
      have hall : ∀ c ∈ first, (fun c => decide (c ≠ sep)) c = true := by
        intro c hc
        exact decide_eq_true (fun heq => hfirst (heq ▸ hc))
      rw [hjoin, List.length_cons, splitAtMost, if_pos (by simp),
        List.takeWhile_append_of_pos hall, List.dropWhile_append_of_pos hall]
      simp [ih hrest]

end AtMost

end DelimitedTexts
