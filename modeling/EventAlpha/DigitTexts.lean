import Mathlib.Data.Char
import Mathlib.Data.Int.Basic

/-!
# Digits of a number

The decimal digits of a number, also behind padding zeros, give back the number,
and are characters above the blank.
-/

namespace DigitTexts

variable {n m width : ℕ} {c : Char}

theorem lt_of_isDigit (h : c.isDigit = true) : ' ' < c := by
  simp only [Char.isDigit, Bool.and_eq_true, decide_eq_true_eq] at h
  have hzero : '0' ≤ c := h.1
  exact lt_of_lt_of_le (show ' ' < '0' by decide) hzero

/-- The digits of a number are digits. -/
theorem isDigit_of_mem (hc : c ∈ Nat.toDigits 10 n) : c.isDigit = true :=
  Nat.isDigit_of_mem_toDigits (by decide) (by decide) hc

/-- So are the zeros in front of them. -/
theorem isDigit_of_mem_leftpad (hc : c ∈ (Nat.toDigits 10 n).leftpad width '0') :
    c.isDigit = true := by
  rw [List.leftpad, List.mem_append] at hc
  rcases hc with hzero | hdigit
  · rw [List.eq_of_mem_replicate hzero]
    decide
  · exact isDigit_of_mem hdigit

/-- Padded digits give back their number. -/
@[simp] theorem ofDigitChars_leftpad (n width : ℕ) :
    Nat.ofDigitChars 10 ((Nat.toDigits 10 n).leftpad width '0') 0 = n := by
  rw [List.leftpad, Nat.ofDigitChars_append, Nat.ofDigitChars_replicate_zero, Nat.mul_zero,
    Nat.ofDigitChars_ten_toDigits]

theorem toDigits_inj (h : Nat.toDigits 10 n = Nat.toDigits 10 m) : n = m := by
  have hread := congrArg (fun text => Nat.ofDigitChars 10 text 0) h
  simpa using hread

/-- The text of an integer that is not negative. -/
theorem toList_toString {k : Int} (h : 0 ≤ k) :
    (toString k).toList = Nat.toDigits 10 k.natAbs := by
  rw [Int.toString_eq_repr, Int.repr_eq_if, if_pos h, Nat.toList_repr]
  congr 1
  omega

end DigitTexts
