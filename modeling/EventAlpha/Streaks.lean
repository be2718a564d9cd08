import Mathlib.Data.List.DropRight
import Mathlib.Data.List.Induction

/-!
# Streaks

Elements of a list that have a property, several in a row.  `trailing` counts
those at the end of a list, which is what a program that reads the list and
counts from zero after every other element has in its counter.  That its counter
has ever reached `n` is then a matter of the list alone (`HasStreak`), up to an
element that makes the program stop.
-/

namespace Streaks

variable {α : Type*} {p q stop : α → Bool} {n : ℕ} {l later : List α} {a b : α}

/-- How many elements at the end of a list have the property. -/
def trailing (p : α → Bool) (l : List α) : ℕ := (l.rtakeWhile p).length

@[simp] theorem trailing_nil : trailing p [] = 0 := by
  simp [trailing]

theorem trailing_concat_of_pos (h : p a = true) : trailing p (l ++ [a]) = trailing p l + 1 := by
  rw [trailing, List.rtakeWhile_concat_pos p l a h, List.length_append]
  rfl

theorem trailing_concat_of_neg (h : p a = false) : trailing p (l ++ [a]) = 0 := by
  rw [trailing, List.rtakeWhile_concat_neg p l a (by simp [h])]
  rfl

/-- At least `n` elements at the end have the property if the list ends with
`n` such. -/
theorem le_trailing_iff :
    n ≤ trailing p l ↔
      ∃ earlier streak, l = earlier ++ streak ∧ streak.length = n ∧ ∀ a ∈ streak, p a = true := by
  constructor
  · intro hle
    obtain ⟨earlier, hl⟩ := List.rtakeWhile_suffix p l
    refine ⟨earlier ++ (l.rtakeWhile p).take (trailing p l - n),
      (l.rtakeWhile p).drop (trailing p l - n), ?_, ?_, ?_⟩
    · rw [List.append_assoc, List.take_append_drop, hl]
    · rw [List.length_drop]
      unfold trailing at hle ⊢
      omega
    · intro a ha
      exact List.mem_rtakeWhile_imp (List.mem_of_mem_drop ha)
  · rintro ⟨earlier, streak, rfl, rfl, hall⟩
    induction streak using List.reverseRecOn with
    | nil => exact Nat.zero_le _
    | append_singleton streak a ih =>
        have hstreak := ih (fun b hb => hall b (List.mem_append_left _ hb))
        have hlast : p a = true := hall a (by simp)
        rw [← List.append_assoc, trailing_concat_of_pos hlast, List.length_append]
        exact Nat.succ_le_succ hstreak

/-- Somewhere in the list, `n` elements in a row have the property, and nothing
before them stops. -/
def HasStreak (p stop : α → Bool) (n : ℕ) (l : List α) : Prop :=
  ∃ earlier streak later, l = earlier ++ streak ++ later ∧ streak.length = n ∧
    (∀ a ∈ streak, p a = true) ∧ ∀ a ∈ earlier, stop a = false

theorem HasStreak.append (h : HasStreak p stop n l) (later : List α) :
    HasStreak p stop n (l ++ later) := by
  obtain ⟨earlier, streak, rest, rfl, hstreak⟩ := h
  exact ⟨earlier, streak, rest ++ later, (List.append_assoc _ _ _), hstreak⟩

/-- What has the property does not stop. -/
def Disjoint (p stop : α → Bool) : Prop := ∀ a, p a = true → stop a = false

theorem hasStreak_zero : HasStreak p stop 0 l :=
  ⟨[], [], l, rfl, rfl, by simp, by simp⟩

/-- **One more.**  A streak is completed by an element with the property, unless
something stopped before. -/
theorem hasStreak_concat_iff (hdisjoint : Disjoint p stop) :
    HasStreak p stop n (l ++ [a]) ↔
      HasStreak p stop n l ∨ (∀ b ∈ l, stop b = false) ∧ n ≤ trailing p (l ++ [a]) := by
  constructor
  · rintro ⟨earlier, streak, later, hl, hlength, hall, hearlier⟩
    rcases List.eq_nil_or_concat' later with rfl | ⟨later, last, rfl⟩
    · -- the streak ends with the new element
      rw [List.append_nil] at hl
      refine .inr ⟨?_, le_trailing_iff.mpr ⟨earlier, streak, hl, hlength, hall⟩⟩
      intro b hb
      have hmem : b ∈ earlier ++ streak := hl ▸ List.mem_append_left _ hb
      rcases List.mem_append.mp hmem with hmem | hmem
      · exact hearlier b hmem
      · exact hdisjoint b (hall b hmem)
    · rw [← List.append_assoc] at hl
      exact .inl ⟨earlier, streak, later, (List.append_inj' hl rfl).1, hlength, hall, hearlier⟩
  · rintro (h | ⟨hstops, hle⟩)
    · exact h.append [a]
    · obtain ⟨earlier, streak, hl, hlength, hall⟩ := le_trailing_iff.mp hle
      rcases List.eq_nil_or_concat' streak with rfl | ⟨streak, last, rfl⟩
      · obtain rfl : 0 = n := hlength
        exact hasStreak_zero
      · refine ⟨earlier, streak ++ [last], [], by rw [List.append_nil, hl], hlength, hall, ?_⟩
        rw [← List.append_assoc] at hl
        intro b hb
        exact hstops b ((List.append_inj' hl rfl).1 ▸ List.mem_append_left _ hb)

/-- What comes after a stop completes no streak. -/
theorem HasStreak.of_stop (hdisjoint : Disjoint p stop) (hstop : stop a = true)
    (h : HasStreak p stop n (l ++ a :: later)) : HasStreak p stop n l := by
  induction later using List.reverseRecOn with
  | nil =>
      rcases (hasStreak_concat_iff hdisjoint).mp h with h | ⟨-, hle⟩
      · exact h
      · have hnot : p a = false := by
          by_contra hp
          have := hdisjoint a (by simpa using hp)
          simp [hstop] at this
        rw [trailing_concat_of_neg hnot] at hle
        obtain rfl := Nat.le_zero.mp hle
        exact hasStreak_zero
  | append_singleton later b ih =>
      rw [← List.cons_append, ← List.append_assoc] at h
      rcases (hasStreak_concat_iff hdisjoint).mp h with h | ⟨hstops, -⟩
      · exact ih h
      · have := hstops a (by simp)
        simp [hstop] at this

/-- How many elements with one property directly follow one with another. -/
def following (p q : α → Bool) : List α → ℕ
  | a :: b :: l => (if p a && q b then 1 else 0) + following p q (b :: l)
  | _ => 0

theorem following_concat :
    following p q (l ++ [a]) =
      following p q l + if q a = true ∧ 0 < trailing p l then 1 else 0 := by
  have hpair : ∀ l : List α, ∀ b, following p q (l ++ [b] ++ [a]) =
      following p q (l ++ [b]) + if p b && q a then 1 else 0 := by
    intro l
    induction l with
    | nil =>
        intro b
        simp [following]
    | cons c l ih =>
        intro b
        cases l with
        | nil => simp [following]
        | cons d l =>
            have hrest := ih b
            simp only [List.cons_append, following] at hrest ⊢
            rw [hrest, Nat.add_assoc]
  rcases List.eq_nil_or_concat' l with rfl | ⟨l, b, rfl⟩
  · simp [following]
  · rw [hpair]
    cases hb : p b with
    | false => simp [trailing_concat_of_neg hb]
    | true => simp [trailing_concat_of_pos hb]

end Streaks
