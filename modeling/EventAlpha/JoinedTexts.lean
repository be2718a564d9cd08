import Mathlib.Data.List.Basic

/-!
# Joined texts

Fields are joined with a separator, and some of them may hold it.  The joined
text still gives back the fields after which only plain ones come
(`append_intercalate_inj`), a plain field being one without the separator.
Three fields of which only the middle one is plain are given back up to a shift
over a separator (`joined_three_iff`).
-/

namespace JoinedTexts

variable {α : Type*} [DecidableEq α] {sep : α} {p s n r p' s' n' r' : List α}
  {fields fields' : List (List α)}

section Plain

/-- A join of plain fields holds a separator between any two. -/
theorem count_intercalate (hplain : ∀ field ∈ fields, sep ∉ field) :
    ([sep].intercalate fields).count sep = fields.length - 1 := by
  induction fields with
  | nil => rfl
  | cons field fields ih =>
    have hfield : field.count sep = 0 := List.count_eq_zero.mpr (hplain field List.mem_cons_self)
    have hrest := ih (fun f hf => hplain f (List.mem_cons_of_mem _ hf))
    cases fields with
    | nil => rw [List.intercalate_singleton, hfield, List.length_singleton]
    | cons next rest =>
      rw [List.intercalate_cons_cons, List.count_append, List.count_append, hfield, hrest]
      simp [Nat.add_comm]

/-- Plain fields are given back by their join. -/
theorem intercalate_inj (hplain : ∀ field ∈ fields, sep ∉ field)
    (hplain' : ∀ field ∈ fields', sep ∉ field) (hne : fields ≠ []) (hne' : fields' ≠ [])
    (h : [sep].intercalate fields = [sep].intercalate fields') : fields = fields' := by
  have hsplit := congrArg (List.splitOn sep) h
  rwa [List.splitOn_intercalate sep hplain hne, List.splitOn_intercalate sep hplain' hne'] at hsplit

end Plain

section Free

omit [DecidableEq α] in
/-- Nothing plain stands before a separator that comes first. -/
theorem nil_of_sep_eq_append {a : List α} (ha : sep ∉ a) (h : sep :: r = a ++ sep :: r') :
    a = [] ∧ r = r' := by
  cases a with
  | nil => exact ⟨rfl, (List.cons_eq_cons.mp h).2⟩
  | cons c a =>
    obtain ⟨rfl, -⟩ := List.cons_eq_cons.mp h
    exact absurd List.mem_cons_self ha

/-- A text is cut at the last separator of as many as follow. -/
theorem append_sep_inj (h : p ++ sep :: r = p' ++ sep :: r')
    (hcount : r.count sep = r'.count sep) : p = p' ∧ r = r' := by
  -- the separators behind the cut are as many, so none stands between the two cuts
  have hplain : ∀ {a r r' : List α}, sep :: r = a ++ sep :: r' →
      r.count sep = r'.count sep → sep ∉ a := by
    intro a r r' ha hcount
    have hsep := congrArg (List.count sep) ha
    simp only [List.count_append, List.count_cons_self] at hsep
    exact List.count_eq_zero.mp (by omega)
  rcases List.append_eq_append_iff.mp h with ⟨a, rfl, ha⟩ | ⟨a, rfl, ha⟩
  · obtain ⟨rfl, hr⟩ := nil_of_sep_eq_append (hplain ha hcount) ha
    exact ⟨(List.append_nil p).symm, hr⟩
  · obtain ⟨rfl, hr⟩ := nil_of_sep_eq_append (hplain ha hcount.symm) ha
    exact ⟨List.append_nil p', hr.symm⟩

omit [DecidableEq α] in
/-- A text is cut at its first separator. -/
theorem plain_append_sep_inj (hs : sep ∉ s) (hs' : sep ∉ s')
    (h : s ++ sep :: r = s' ++ sep :: r') : s = s' ∧ r = r' := by
  rcases List.append_eq_append_iff.mp h with ⟨a, rfl, ha⟩ | ⟨a, rfl, ha⟩
  · obtain ⟨rfl, hr⟩ := nil_of_sep_eq_append (fun hmem => hs' (List.mem_append_right s hmem)) ha
    exact ⟨(List.append_nil s).symm, hr⟩
  · obtain ⟨rfl, hr⟩ := nil_of_sep_eq_append (fun hmem => hs (List.mem_append_right s' hmem)) ha
    exact ⟨List.append_nil s', hr.symm⟩

/-- One free text before as many plain fields. -/
theorem append_intercalate_inj (hplain : ∀ field ∈ fields, sep ∉ field)
    (hplain' : ∀ field ∈ fields', sep ∉ field) (hne : fields ≠ [])
    (hlength : fields.length = fields'.length)
    (h : p ++ sep :: [sep].intercalate fields = p' ++ sep :: [sep].intercalate fields') :
    p = p' ∧ fields = fields' := by
  have hne' : fields' ≠ [] := by
    intro heq
    obtain rfl := heq
    exact hne (List.length_eq_zero_iff.mp hlength)
  have hcount : ([sep].intercalate fields).count sep = ([sep].intercalate fields').count sep := by
    rw [count_intercalate hplain, count_intercalate hplain', hlength]
  obtain ⟨hp, hfields⟩ := append_sep_inj h hcount
  exact ⟨hp, intercalate_inj hplain hplain' hne hne' hfields⟩

end Free

section Shifts

/-- Three fields, the first of which takes over the first two of three others
and a piece of their third. -/
def Shifted (sep : α) (p s n p' s' n' : List α) : Prop :=
  ∃ piece, p' ++ [sep] = p ++ sep :: (s ++ sep :: piece) ∧ n = piece ++ (s' ++ sep :: n')

omit [DecidableEq α] in
theorem Shifted.length_lt (h : Shifted sep p s n p' s' n') : p.length < p'.length := by
  obtain ⟨piece, hp, -⟩ := h
  have hlength := congrArg List.length hp
  simp only [List.length_append, List.length_cons, List.length_nil] at hlength
  omega

omit [DecidableEq α] in
theorem Shifted.joined_eq (h : Shifted sep p s n p' s' n') :
    p ++ sep :: (s ++ sep :: n) = p' ++ sep :: (s' ++ sep :: n') := by
  obtain ⟨piece, hp, rfl⟩ := h
  have hmove : p' ++ sep :: (s' ++ sep :: n') = (p' ++ [sep]) ++ (s' ++ sep :: n') := by simp
  rw [hmove, hp]
  simp

omit [DecidableEq α] in
/-- A longer first field begins with all of the shorter one and the plain field
behind it. -/
theorem shifted_of_cons {a : List α} (hs : sep ∉ s)
    (h : s ++ sep :: n = a ++ sep :: (s' ++ sep :: n')) :
    Shifted sep p s n (p ++ sep :: a) s' n' := by
  rcases List.append_eq_append_iff.mp h with ⟨b, rfl, hb⟩ | ⟨b, rfl, hb⟩
  · cases b with
    | nil =>
      refine ⟨[], by simp, ?_⟩
      simpa using hb
    | cons c b =>
      obtain ⟨rfl, rfl⟩ := List.cons_eq_cons.mp hb
      exact ⟨b ++ [sep], by simp, by simp⟩
  · cases b with
    | nil =>
      refine ⟨[], by simp, ?_⟩
      simpa using hb.symm
    | cons c b =>
      obtain ⟨rfl, -⟩ := List.cons_eq_cons.mp hb
      simp at hs

omit [DecidableEq α] in
/-- Three fields with a plain one in the middle are given back by their join, up
to a shift. -/
theorem joined_three_iff (hs : sep ∉ s) (hs' : sep ∉ s') :
    p ++ sep :: (s ++ sep :: n) = p' ++ sep :: (s' ++ sep :: n') ↔
      (p = p' ∧ s = s' ∧ n = n') ∨ Shifted sep p s n p' s' n' ∨ Shifted sep p' s' n' p s n := by
  constructor
  · intro h
    rcases List.append_eq_append_iff.mp h with ⟨a, rfl, ha⟩ | ⟨a, rfl, ha⟩
    · cases a with
      | nil =>
        obtain ⟨rfl, rfl⟩ := plain_append_sep_inj hs hs' (List.cons_eq_cons.mp ha).2
        simp
      | cons c a =>
        rw [List.cons_append, List.cons_eq_cons] at ha
        obtain ⟨rfl, ha⟩ := ha
        exact .inr (.inl (shifted_of_cons hs ha))
    · cases a with
      | nil =>
        obtain ⟨rfl, rfl⟩ := plain_append_sep_inj hs' hs (List.cons_eq_cons.mp ha).2
        simp
      | cons c a =>
        rw [List.cons_append, List.cons_eq_cons] at ha
        obtain ⟨rfl, ha⟩ := ha
        exact .inr (.inr (shifted_of_cons hs' ha))
  · intro hor
    rcases hor with ⟨rfl, rfl, rfl⟩ | hshift | hshift
    · rfl
    · exact hshift.joined_eq
    · exact hshift.joined_eq.symm

end Shifts

end JoinedTexts
