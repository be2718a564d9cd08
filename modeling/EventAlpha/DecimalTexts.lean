import EventAlpha.Decimals
import EventAlpha.DigitTexts
import EventAlpha.FloatRounding
import Mathlib.Data.List.TakeWhile
import Mathlib.Data.Rat.Floor

/-!
# What a decimal text says of its number

`normalize` finds the number of the context that is nearest to a decimal, and
writes it in the one way that has no trailing zeros, so what it gives depends on
the number alone (`normalize_eq_iff`).  The positional text of a decimal that is
not negative gives back its number (`readFixed_fixedText`).

The nearest number is stated over the rationals: a number is rounded, half to
even, to a place that depends on its size.
-/

namespace Decimal

open FloatRounding

variable {context : Context} {d d' r r' : Decimal} {n m fuel c : ℕ} {e : Int}

section Values

/-- The number a decimal denotes, as a product. -/
theorem value_eq (d : Decimal) : d.value = d.coefficient * (10 : ℚ) ^ d.exponent := by
  unfold value
  by_cases hexponent : 0 ≤ d.exponent
  · obtain ⟨k, hk⟩ := Int.eq_ofNat_of_zero_le hexponent
    rw [if_pos hexponent, hk, Int.toNat_natCast, zpow_natCast]
    push_cast
    rfl
  · obtain ⟨k, hk⟩ : ∃ k : ℕ, d.exponent = -(k : Int) := ⟨(-d.exponent).toNat, by omega⟩
    rw [if_neg hexponent, hk, neg_neg, Int.toNat_natCast, Rat.mkRat_eq_div, zpow_neg, zpow_natCast,
      div_eq_mul_inv]
    push_cast
    rfl

theorem ten_zpow_pos (e : Int) : (0 : ℚ) < 10 ^ e := zpow_pos (by norm_num) e

theorem coefficient_pos_iff : 0 < d.coefficient ↔ 0 < d.value := by
  rw [value_eq, mul_pos_iff_of_pos_right (ten_zpow_pos d.exponent), Int.cast_pos]

/-- A coefficient has one digit more than its logarithm. -/
theorem digits_eq_log (h : 0 < n) : digits n = Nat.log 10 n + 1 := by
  have hlog : n < 10 ^ (Nat.log 10 n + 1) := Nat.lt_pow_succ_log_self (by decide) n
  have hle := (Nat.length_toDigits_le_iff (by decide) (Nat.succ_pos (Nat.log 10 n))).mpr hlog
  have hpos : 0 < digits n := Nat.length_toDigits_pos
  have hlt : n < 10 ^ digits n := (Nat.length_toDigits_le_iff (by decide) hpos).mp (le_refl _)
  have hdigits := Nat.log_lt_of_lt_pow h.ne' hlt
  unfold digits at *
  omega

/-- The place of the first digit of a number. -/
theorem log_mul_zpow (h : 0 < n) (e : Int) :
    Int.log 10 ((n : ℚ) * 10 ^ e) = e + digits n - 1 := by
  have hpos : (0 : ℚ) < n * 10 ^ e := mul_pos (by exact_mod_cast h) (ten_zpow_pos e)
  have hten : ((10 : ℕ) : ℚ) = 10 := by norm_num
  have hlow : e + Nat.log 10 n ≤ Int.log 10 ((n : ℚ) * 10 ^ e) := by
    rw [← Int.zpow_le_iff_le_log (by decide) hpos, hten, zpow_add₀ (by norm_num), mul_comm,
      zpow_natCast]
    have hpow : ((10 ^ Nat.log 10 n : ℕ) : ℚ) ≤ n := by
      exact_mod_cast Nat.pow_log_le_self 10 h.ne'
    push_cast at hpow
    exact mul_le_mul_of_nonneg_right hpow (ten_zpow_pos e).le
  have hhigh : Int.log 10 ((n : ℚ) * 10 ^ e) < e + (Nat.log 10 n + 1 : ℕ) := by
    rw [← Int.lt_zpow_iff_log_lt (by decide) hpos, hten, zpow_add₀ (by norm_num), mul_comm,
      zpow_natCast]
    have hpow : (n : ℚ) < (10 ^ (Nat.log 10 n + 1) : ℕ) := by
      exact_mod_cast Nat.lt_pow_succ_log_self (by decide) n
    push_cast at hpow
    exact mul_lt_mul_of_pos_left hpow (ten_zpow_pos e)
  rw [digits_eq_log h]
  push_cast at hhigh ⊢
  omega

end Values

section Rounding

/-- Division of naturals rounds their quotient. -/
theorem nearest_div (n : ℕ) (h : 0 < m) : nearest ((n : ℚ) / m) = divHalfEven n m := by
  have hm : (0 : ℚ) < m := by exact_mod_cast h
  have hfloor : ⌊(n : ℚ) / m⌋ = ((n / m : ℕ) : ℤ) := by
    rw [Rat.floor_natCast_div_natCast]
    rfl
  have hfract : Int.fract ((n : ℚ) / m) = ((n % m : ℕ) : ℚ) / m :=
    Int.fract_div_natCast_eq_div_natCast_mod
  have hrest : 1 - ((n % m : ℕ) : ℚ) / m = ((m - n % m : ℕ) : ℚ) / m := by
    rw [Nat.cast_sub (Nat.mod_lt n h).le, sub_div, div_self hm.ne']
  have hlow : ((n % m : ℕ) : ℚ) / m < ((m - n % m : ℕ) : ℚ) / m ↔ 2 * (n % m) < m := by
    rw [div_lt_div_iff_of_pos_right hm, Nat.cast_lt]
    omega
  have hhigh : ((m - n % m : ℕ) : ℚ) / m < ((n % m : ℕ) : ℚ) / m ↔ m < 2 * (n % m) := by
    rw [div_lt_div_iff_of_pos_right hm, Nat.cast_lt]
    omega
  have heven : Even (((n / m : ℕ) : ℤ)) ↔ n / m % 2 = 0 := by
    rw [Int.even_coe_nat, Nat.even_iff]
  simp only [nearest, hfract, hrest, hfloor, hlow, hhigh, heven, divHalfEven]
  split_ifs <;> rfl

/-- Division by one rounds nothing. -/
theorem divHalfEven_one (n : ℕ) : divHalfEven n 1 = n := by
  simp [divHalfEven, Nat.mod_one]

/-- The place to which a number is rounded: that of its last significant digit,
but never below the least exponent. -/
def Context.place (context : Context) (x : ℚ) : Int :=
  max (Int.log 10 x - context.precision + 1) context.etiny

/-- The number of a context that is nearest to a positive one. -/
def Context.rounded (context : Context) (x : ℚ) : ℚ :=
  nearest (x / 10 ^ context.place x) * 10 ^ context.place x

/-- Rounding a coefficient to the place of its number, if it reaches below. -/
theorem divHalfEven_mul_zpow (n : ℕ) (e place : Int) :
    (divHalfEven n (10 ^ (max e place - e).toNat) : ℚ) * 10 ^ max e place =
      nearest ((n : ℚ) * 10 ^ e / 10 ^ place) * 10 ^ place := by
  rcases le_total e place with hle | hle
  · obtain ⟨k, hk⟩ : ∃ k : ℕ, place = e + k := ⟨(place - e).toNat, by omega⟩
    have hquotient : (n : ℚ) * 10 ^ e / 10 ^ place = n / ((10 ^ k : ℕ) : ℚ) := by
      rw [hk, zpow_add₀ (by norm_num), mul_comm (n : ℚ), mul_div_mul_left _ _ (ten_zpow_pos e).ne',
        zpow_natCast]
      norm_num
    rw [max_eq_right hle, hquotient, nearest_div n (by positivity)]
    have hexponent : (place - e).toNat = k := by omega
    rw [hexponent]
    rfl
  · obtain ⟨k, hk⟩ : ∃ k : ℕ, e = place + k := ⟨(e - place).toNat, by omega⟩
    -- the coefficient ends above the place, so the quotient is whole
    have hquotient : (n : ℚ) * 10 ^ e / 10 ^ place = ((n * 10 ^ k : ℕ) : ℤ) := by
      rw [hk, zpow_add₀ (by norm_num), zpow_natCast, mul_div_assoc,
        mul_div_cancel_left₀ _ (ten_zpow_pos place).ne']
      norm_num
    rw [max_eq_left hle, hquotient, nearest_intCast, sub_self, Int.toNat_zero, pow_zero,
      divHalfEven_one, hk, zpow_add₀ (by norm_num), zpow_natCast]
    push_cast
    ring

end Rounding

section Stripping

/-- Dropping trailing zeros keeps the number. -/
theorem stripZeros_value (fuel c : ℕ) (e : Int) :
    ((stripZeros fuel c e).1 : ℚ) * 10 ^ (stripZeros fuel c e).2 = c * 10 ^ e := by
  induction fuel generalizing c e with
  | zero => rfl
  | succ fuel ih =>
    unfold stripZeros
    split
    · rename_i hzero
      have hten : c = c / 10 * 10 := (Nat.div_mul_cancel (Nat.dvd_of_mod_eq_zero hzero)).symm
      have hcast : (c : ℚ) = (c / 10 : ℕ) * 10 := by exact_mod_cast hten
      rw [ih, hcast, zpow_add_one₀ (by norm_num), mul_comm ((10 : ℚ) ^ e), mul_assoc]
    · rfl

/-- With fuel for its digits, a coefficient loses all its trailing zeros. -/
theorem stripZeros_mod_ne (hpos : 0 < c) (hfuel : c < 10 ^ fuel) :
    (stripZeros fuel c e).1 % 10 ≠ 0 := by
  induction fuel generalizing c e with
  | zero => omega
  | succ fuel ih =>
    unfold stripZeros
    split
    · exact ih (by omega) (by rw [Nat.pow_succ] at hfuel; omega)
    · assumption

/-- A decimal in the one form without trailing zeros. -/
def Canonical (d : Decimal) : Prop :=
  0 ≤ d.coefficient ∧ (d.coefficient % 10 ≠ 0 ∨ d = ⟨0, 0⟩)

theorem Canonical.eq_zero (h : d.Canonical) (hvalue : d.value = 0) : d = ⟨0, 0⟩ := by
  rw [value_eq, mul_eq_zero, or_iff_left (ten_zpow_pos d.exponent).ne', Int.cast_eq_zero] at hvalue
  rcases h.2 with hmod | hzero
  · rw [hvalue] at hmod
    exact absurd rfl hmod
  · exact hzero

/-- Of two decimals of one number, one without trailing zeros has the greater
exponent. -/
theorem exponent_le_of_value_eq (hmod : d.coefficient % 10 ≠ 0) (hvalue : d.value = d'.value) :
    d'.exponent ≤ d.exponent := by
  by_contra hgt
  obtain ⟨k, hk⟩ : ∃ k : ℕ, d'.exponent = d.exponent + (k + 1 : ℕ) :=
    ⟨(d'.exponent - d.exponent - 1).toNat, by omega⟩
  rw [value_eq, value_eq, hk, zpow_add₀ (by norm_num), mul_comm ((10 : ℚ) ^ d.exponent),
    ← mul_assoc, zpow_natCast] at hvalue
  have hcoefficient : d.coefficient = d'.coefficient * 10 ^ (k + 1) := by
    exact_mod_cast mul_right_cancel₀ (ten_zpow_pos d.exponent).ne' hvalue
  rw [hcoefficient, pow_succ, ← mul_assoc] at hmod
  omega

/-- A canonical decimal is given by its number. -/
theorem Canonical.eq_of_value_eq (h : d.Canonical) (h' : d'.Canonical)
    (hvalue : d.value = d'.value) : d = d' := by
  rcases h.2 with hmod | rfl
  · rcases h'.2 with hmod' | rfl
    · have hexponent : d.exponent = d'.exponent :=
        le_antisymm (exponent_le_of_value_eq hmod' hvalue.symm) (exponent_le_of_value_eq hmod hvalue)
      rw [value_eq, value_eq, hexponent] at hvalue
      have hcoefficient : d.coefficient = d'.coefficient := by
        exact_mod_cast mul_right_cancel₀ (ten_zpow_pos d'.exponent).ne' hvalue
      rw [Decimal.mk.injEq]
      exact ⟨hcoefficient, hexponent⟩
    · exact h.eq_zero hvalue
  · exact (h'.eq_zero hvalue.symm).symm

end Stripping

section Normalizing

/-- The number of a positive decimal, by the magnitude of its coefficient. -/
theorem value_eq_natAbs (h : 0 < d.value) :
    d.value = (d.coefficient.natAbs : ℚ) * 10 ^ d.exponent := by
  have hpos := coefficient_pos_iff.mpr h
  have hcast : ((d.coefficient.natAbs : ℤ) : ℚ) = d.coefficient := by
    rw [Int.natAbs_of_nonneg hpos.le]
  rw [value_eq, ← hcast, Int.cast_natCast]

/-- The size of a number, by the place of its first digit. -/
theorem zpow_succ_le_iff (h : 0 < n) (e emax : Int) :
    (10 : ℚ) ^ (emax + 1) ≤ n * 10 ^ e ↔ emax < e + digits n - 1 := by
  have hpos : (0 : ℚ) < n * 10 ^ e := mul_pos (by exact_mod_cast h) (ten_zpow_pos e)
  have hlog := Int.zpow_le_iff_le_log (b := 10) (x := emax + 1) (by decide) hpos
  rw [log_mul_zpow h, Nat.cast_ofNat] at hlog
  rw [hlog]
  omega

/-- Stripping the zeros of a coefficient gives the canonical decimal of its
number. -/
theorem canonical_stripZeros (h : 0 < c) (e : Int) :
    (signed false (stripZeros (digits c) c e).1 (stripZeros (digits c) c e).2).Canonical ∧
      (signed false (stripZeros (digits c) c e).1 (stripZeros (digits c) c e).2).value =
        c * 10 ^ e := by
  have hfuel : c < 10 ^ digits c :=
    (Nat.length_toDigits_le_iff (by decide) Nat.length_toDigits_pos).mp (le_refl _)
  have hmod := stripZeros_mod_ne (e := e) h hfuel
  refine ⟨⟨Int.natCast_nonneg _, .inl ?_⟩, ?_⟩
  · simp only [signed, Bool.false_eq_true, if_false]
    omega
  · rw [value_eq, ← stripZeros_value (digits c) c e]
    rfl

variable (context) in
/-- `normalize` of a positive decimal: it raises if the nearest number of the
context is too great, and gives the canonical decimal of that number. -/
theorem normalize_cases (h : 0 < d.value) :
    ((10 : ℚ) ^ (context.emax + 1) ≤ context.rounded d.value ∧ d.normalize context = none) ∨
      (context.rounded d.value < (10 : ℚ) ^ (context.emax + 1) ∧
        ∃ r, d.normalize context = some r ∧ r.Canonical ∧ r.value = context.rounded d.value) := by
  have hpos := coefficient_pos_iff.mpr h
  have hmagnitude : 0 < d.coefficient.natAbs := by omega
  obtain ⟨target, htarget⟩ : ∃ target, target = max d.exponent (context.place d.value) := ⟨_, rfl⟩
  obtain ⟨rounded, hrounded⟩ : ∃ rounded, rounded =
      divHalfEven d.coefficient.natAbs (10 ^ (target - d.exponent).toNat) := ⟨_, rfl⟩
  have hplace : context.place d.value = max (d.exponent + digits d.coefficient.natAbs - 1 -
      context.precision + 1) context.etiny := by
    rw [Context.place, value_eq_natAbs h, log_mul_zpow hmagnitude]
  have hvalue : context.rounded d.value = (rounded : ℚ) * 10 ^ target := by
    rw [hrounded, htarget, divHalfEven_mul_zpow, ← value_eq_natAbs h]
    rfl
  have hnormalize : d.normalize context =
      if rounded = 0 then some ⟨0, 0⟩
      else if context.emax < target + digits rounded - 1 then none
      else some (signed (d.coefficient < 0) (stripZeros (digits rounded) rounded target).1
        (stripZeros (digits rounded) rounded target).2) := by
    rw [hrounded, htarget, hplace]
    rfl
  rw [hvalue, hnormalize]
  by_cases hzero : rounded = 0
  · refine .inr ⟨?_, ⟨0, 0⟩, if_pos hzero, ⟨le_refl _, .inr rfl⟩, ?_⟩
    · rw [hzero, Nat.cast_zero, zero_mul]
      exact ten_zpow_pos _
    · rw [hzero, Nat.cast_zero, zero_mul, value_eq, Int.cast_zero, zero_mul]
  · have hroundedPos : 0 < rounded := Nat.pos_of_ne_zero hzero
    have hgreat := zpow_succ_le_iff hroundedPos target context.emax
    rw [if_neg hzero]
    by_cases hoverflow : context.emax < target + digits rounded - 1
    · exact .inl ⟨hgreat.mpr hoverflow, if_pos hoverflow⟩
    · have hsign : decide (d.coefficient < 0) = false := decide_eq_false (by omega)
      have hlt := not_le.mp (fun hle => hoverflow (hgreat.mp hle))
      rw [if_neg hoverflow, hsign]
      exact .inr ⟨hlt, _, rfl, canonical_stripZeros hroundedPos target⟩

variable (context) in
theorem normalize_isSome_iff (h : 0 < d.value) :
    (∃ r, d.normalize context = some r) ↔
      context.rounded d.value < (10 : ℚ) ^ (context.emax + 1) := by
  rcases normalize_cases context h with ⟨hle, hnone⟩ | ⟨hlt, r, hr, -, -⟩
  · simp [hnone, not_lt.mpr hle]
  · exact iff_of_true ⟨r, hr⟩ hlt

/-- What `normalize` gives is the nearest number, in its canonical form. -/
theorem of_normalize_eq_some (h : 0 < d.value) (hr : d.normalize context = some r) :
    r.Canonical ∧ r.value = context.rounded d.value := by
  rcases normalize_cases context h with ⟨-, hnone⟩ | ⟨-, r', hr', hcanonical, hvalue⟩
  · rw [hnone] at hr
    cases hr
  · rw [hr', Option.some.injEq] at hr
    rw [← hr]
    exact ⟨hcanonical, hvalue⟩

/-- Two positive decimals are normalized alike when they are rounded alike. -/
theorem normalize_eq_iff (h : 0 < d.value) (h' : 0 < d'.value)
    (hr : d.normalize context = some r) (hr' : d'.normalize context = some r') :
    r = r' ↔ context.rounded d.value = context.rounded d'.value := by
  obtain ⟨hcanonical, hvalue⟩ := of_normalize_eq_some h hr
  obtain ⟨hcanonical', hvalue'⟩ := of_normalize_eq_some h' hr'
  rw [← hvalue, ← hvalue']
  exact ⟨fun heq => by rw [heq], hcanonical.eq_of_value_eq hcanonical'⟩

/-- A positive decimal of few digits is not rounded. -/
theorem rounded_of_digits_le (h : 0 < d.value)
    (hdigits : digits d.coefficient.natAbs ≤ context.precision)
    (hexponent : context.etiny ≤ d.exponent) : context.rounded d.value = d.value := by
  have hpos := coefficient_pos_iff.mpr h
  have hplace : context.place d.value ≤ d.exponent := by
    rw [Context.place, value_eq_natAbs h, log_mul_zpow (by omega)]
    omega
  have hround := divHalfEven_mul_zpow d.coefficient.natAbs d.exponent (context.place d.value)
  rw [max_eq_left hplace, sub_self, Int.toNat_zero, pow_zero, ← value_eq_natAbs h] at hround
  rw [Context.rounded, ← hround, divHalfEven_one, ← value_eq_natAbs h]

end Normalizing

section Texts

/-- The number that positional text denotes. -/
def readFixed (text : List Char) : ℚ :=
  let whole := text.takeWhile (· ≠ '.')
  let fraction := (text.dropWhile (· ≠ '.')).drop 1
  Nat.ofDigitChars 10 (whole ++ fraction) 0 / 10 ^ fraction.length

theorem readFixed_whole {text : List Char} (h : ∀ c ∈ text, c ≠ '.') :
    readFixed text = Nat.ofDigitChars 10 text 0 := by
  have hwhole : text.takeWhile (· ≠ '.') = text :=
    List.takeWhile_eq_self_iff.mpr (fun c hc => decide_eq_true (h c hc))
  have hrest : text.dropWhile (· ≠ '.') = [] :=
    List.dropWhile_eq_nil_iff.mpr (fun c hc => decide_eq_true (h c hc))
  simp only [readFixed, hwhole, hrest, List.drop_nil, List.append_nil, List.length_nil, pow_zero,
    div_one]

theorem readFixed_fraction {whole fraction : List Char} (h : ∀ c ∈ whole, c ≠ '.') :
    readFixed (whole ++ '.' :: fraction) =
      Nat.ofDigitChars 10 (whole ++ fraction) 0 / 10 ^ fraction.length := by
  have hwhole : ∀ c ∈ whole, decide (c ≠ '.') = true := fun c hc => decide_eq_true (h c hc)
  have htake : (whole ++ '.' :: fraction).takeWhile (· ≠ '.') = whole := by
    rw [List.takeWhile_append_of_pos hwhole]
    simp
  have hdrop : (whole ++ '.' :: fraction).dropWhile (· ≠ '.') = '.' :: fraction := by
    rw [List.dropWhile_append_of_pos hwhole]
    simp
  simp only [readFixed, htake, hdrop, List.drop_succ_cons, List.drop_zero]

theorem ne_point_of_isDigit {c : Char} (h : c.isDigit = true) : c ≠ '.' := by
  intro heq
  obtain rfl := heq
  exact absurd h (by decide)

/-- The digits of a whole number. -/
theorem toList_fixedText_whole (h : 0 ≤ d.coefficient) (hexponent : 0 ≤ d.exponent) :
    d.fixedText.toList = Nat.toDigits 10 d.coefficient.natAbs ++
      List.replicate (if d.coefficient = 0 then 0 else d.exponent.toNat) '0' := by
  simp only [fixedText, if_neg (not_lt.mpr h), if_pos hexponent, String.toList_ofList,
    List.nil_append]
  split <;> rfl

/-- The digits of a number with a fraction, cut before the fraction. -/
theorem toList_fixedText_fraction (h : 0 ≤ d.coefficient) (hexponent : d.exponent < 0) :
    ∃ whole fraction, d.fixedText.toList = whole ++ '.' :: fraction ∧
      fraction.length = (-d.exponent).toNat ∧
      whole ++ fraction = (Nat.toDigits 10 d.coefficient.natAbs).leftpad
        ((-d.exponent).toNat + 1) '0' := by
  obtain ⟨padded, hpadded⟩ : ∃ padded, padded =
    (Nat.toDigits 10 d.coefficient.natAbs).leftpad ((-d.exponent).toNat + 1) '0' := ⟨_, rfl⟩
  rw [← hpadded]
  refine ⟨padded.take (padded.length - (-d.exponent).toNat),
    padded.drop (padded.length - (-d.exponent).toNat), ?_, ?_, List.take_append_drop _ _⟩
  · simp only [fixedText, if_neg (not_lt.mpr h), if_neg (not_le.mpr hexponent),
      String.toList_ofList, List.nil_append, hpadded]
  · rw [List.length_drop, hpadded, List.length_leftpad]
    omega

/-- The positional text of a decimal that is not negative gives back its number. -/
theorem readFixed_fixedText (h : 0 ≤ d.coefficient) : readFixed d.fixedText.toList = d.value := by
  have hcast : ((d.coefficient.natAbs : ℤ) : ℚ) = d.coefficient := by
    rw [Int.natAbs_of_nonneg h]
  rw [value_eq, ← hcast, Int.cast_natCast]
  by_cases hexponent : 0 ≤ d.exponent
  · have hdigits : ∀ c ∈ d.fixedText.toList, c ≠ '.' := by
      intro c hc
      rw [toList_fixedText_whole h hexponent, List.mem_append] at hc
      rcases hc with hdigit | hzero
      · exact ne_point_of_isDigit (DigitTexts.isDigit_of_mem hdigit)
      · rw [List.eq_of_mem_replicate hzero]
        decide
    obtain ⟨k, hk⟩ := Int.eq_ofNat_of_zero_le hexponent
    rw [readFixed_whole hdigits, toList_fixedText_whole h hexponent, Nat.ofDigitChars_append,
      Nat.ofDigitChars_ten_toDigits, Nat.ofDigitChars_replicate_zero, hk, zpow_natCast]
    by_cases hzero : d.coefficient = 0
    · simp [hzero]
    · rw [if_neg hzero, Int.toNat_natCast]
      push_cast
      ring
  · obtain ⟨whole, fraction, htext, hlength, hdigits⟩ :=
      toList_fixedText_fraction h (not_le.mp hexponent)
    obtain ⟨k, hk⟩ : ∃ k : ℕ, d.exponent = -(k : Int) := ⟨(-d.exponent).toNat, by omega⟩
    have hwhole : ∀ c ∈ whole, c ≠ '.' := by
      intro c hc
      have hmem : c ∈ whole ++ fraction := List.mem_append_left fraction hc
      rw [hdigits] at hmem
      exact ne_point_of_isDigit (DigitTexts.isDigit_of_mem_leftpad hmem)
    rw [htext, readFixed_fraction hwhole, hdigits, DigitTexts.ofDigitChars_leftpad, hlength, hk, neg_neg,
      Int.toNat_natCast, zpow_neg, zpow_natCast, div_eq_mul_inv]

/-- Canonical decimals with one text are one. -/
theorem Canonical.eq_of_fixedText_eq (h : d.Canonical) (h' : d'.Canonical)
    (htext : d.fixedText = d'.fixedText) : d = d' := by
  apply h.eq_of_value_eq h'
  rw [← readFixed_fixedText h.1, htext, readFixed_fixedText h'.1]

/-- The positional text of a decimal that is not negative has digits and at most
a point. -/
theorem mem_fixedText (h : 0 ≤ d.coefficient) {c : Char} (hc : c ∈ d.fixedText.toList) :
    c.isDigit = true ∨ c = '.' := by
  by_cases hexponent : 0 ≤ d.exponent
  · rw [toList_fixedText_whole h hexponent, List.mem_append] at hc
    rcases hc with hdigit | hzero
    · exact .inl (DigitTexts.isDigit_of_mem hdigit)
    · rw [List.eq_of_mem_replicate hzero]
      exact .inl (by decide)
  · obtain ⟨whole, fraction, htext, -, hdigits⟩ :=
      toList_fixedText_fraction h (not_le.mp hexponent)
    rw [htext, List.mem_append, List.mem_cons] at hc
    have hdigit : c ∈ whole ++ fraction → c.isDigit = true := by
      intro hmem
      rw [hdigits] at hmem
      exact DigitTexts.isDigit_of_mem_leftpad hmem
    rcases hc with hwhole | rfl | hfraction
    · exact .inl (hdigit (List.mem_append_left fraction hwhole))
    · exact .inr rfl
    · exact .inl (hdigit (List.mem_append_right whole hfraction))

end Texts

end Decimal
