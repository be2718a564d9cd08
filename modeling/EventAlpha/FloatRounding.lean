import Mathlib.Algebra.Order.Floor.Ring
import Mathlib.Algebra.Order.Round
import Mathlib.Data.Int.Log
import Mathlib.Tactic.Linarith
import Mathlib.Tactic.Positivity

/-!
# Rounding to floating point numbers

An exact result is rounded to a binary floating point number of `p` digits: to
the nearest multiple of a power of two that depends on its size, and to the even
multiple of two that are as near.  Exponents are unbounded, so there is neither
overflow nor underflow here.

Rounding is monotone (`rounded_mono`), although the power of two changes with
the size.  So is `truncated`, the conversion to an integer.
-/

namespace FloatRounding

variable {K : Type*} [Field K] [LinearOrder K] [IsStrictOrderedRing K] [FloorRing K]
  {p : ℕ} {x y : K} {m : ℤ}

/-- The nearest integer, and the even one of two. -/
def nearest (x : K) : ℤ :=
  if Int.fract x < 1 - Int.fract x then ⌊x⌋
  else if 1 - Int.fract x < Int.fract x then ⌊x⌋ + 1
  else if Even ⌊x⌋ then ⌊x⌋ else ⌊x⌋ + 1

theorem abs_nearest_sub_le (x : K) : |(nearest x : K) - x| ≤ 1 / 2 := by
  have hx := Int.floor_add_fract x
  have hnonneg := Int.fract_nonneg x
  have hlt := Int.fract_lt_one x
  rw [abs_le]
  unfold nearest
  split
  · constructor <;> linarith
  · split
    · push_cast
      constructor <;> linarith
    · split
      · constructor <;> linarith
      · push_cast
        constructor <;> linarith

theorem nearest_mono (h : x ≤ y) : nearest x ≤ nearest y := by
  rcases h.eq_or_lt with rfl | hlt
  · exact le_refl _
  · by_contra hgt
    have hstep : (nearest y : K) + 1 ≤ nearest x := by exact_mod_cast not_le.mp hgt
    have hx := (abs_le.mp (abs_nearest_sub_le x)).2
    have hy := (abs_le.mp (abs_nearest_sub_le y)).1
    linarith

@[simp] theorem nearest_intCast (m : ℤ) : nearest (m : K) = m := by
  rw [nearest, Int.fract_intCast, if_pos (by rw [sub_zero]; exact one_pos), Int.floor_intCast]

/-- The distance of the floating point numbers of the size of `x`. -/
def spacing (p : ℕ) (x : K) : K := ((2 : ℕ) : K) ^ (Int.log 2 |x| + 1 - p)

omit [IsStrictOrderedRing K] in
theorem spacing_eq (p : ℕ) (x : K) : spacing p x = 2 ^ (Int.log 2 |x| + 1 - p) := by
  rw [spacing, Nat.cast_ofNat]

theorem spacing_pos (p : ℕ) (x : K) : 0 < spacing p x := by
  rw [spacing_eq]
  exact zpow_pos two_pos _

/-- The floating point number nearest to an exact result. -/
def rounded (p : ℕ) (x : K) : K := nearest (x / spacing p x) * spacing p x

/-- A floating point number of the same spacing bounds the rounding of what it
bounds. -/
theorem rounded_le (h : x ≤ m * spacing p x) : rounded p x ≤ m * spacing p x := by
  have hnearest := nearest_mono ((div_le_iff₀ (spacing_pos p x)).mpr h)
  rw [nearest_intCast] at hnearest
  have hcast : (nearest (x / spacing p x) : K) ≤ m := by exact_mod_cast hnearest
  exact mul_le_mul_of_nonneg_right hcast (spacing_pos p x).le

theorem le_rounded (h : m * spacing p x ≤ x) : m * spacing p x ≤ rounded p x := by
  have hnearest := nearest_mono ((le_div_iff₀ (spacing_pos p x)).mpr h)
  rw [nearest_intCast] at hnearest
  have hcast : (m : K) ≤ nearest (x / spacing p x) := by exact_mod_cast hnearest
  exact mul_le_mul_of_nonneg_right hcast (spacing_pos p x).le

/-- A power of two that is not below the spacing, in spacings. -/
theorem zpow_eq_mul_spacing (p k : ℕ) (x : K) :
    (2 : K) ^ (Int.log 2 |x| + 1 - p + k) = ((2 ^ k : ℤ) : K) * spacing p x := by
  have hcast : ((2 ^ k : ℤ) : K) = 2 ^ (k : ℤ) := by
    rw [zpow_natCast]
    norm_num
  have htwo : (0 : K) < 2 := two_pos
  rw [hcast, spacing_eq, ← zpow_add₀ htwo.ne', add_comm]

/-- The next power of two. -/
theorem zpow_log_succ_eq (p : ℕ) (x : K) :
    (2 : K) ^ (Int.log 2 |x| + 1) = ((2 ^ p : ℤ) : K) * spacing p x := by
  rw [← zpow_eq_mul_spacing p p x, sub_add_cancel]

/-- The last power of two. -/
theorem zpow_log_eq (hp : 1 ≤ p) (x : K) :
    (2 : K) ^ Int.log 2 |x| = ((2 ^ (p - 1) : ℤ) : K) * spacing p x := by
  rw [← zpow_eq_mul_spacing p (p - 1) x]
  congr 1
  omega

/-- A result and its rounding lie between the same powers of two. -/
theorem rounded_le_zpow (hx : 0 < x) : rounded p x ≤ 2 ^ (Int.log 2 |x| + 1) := by
  rw [zpow_log_succ_eq p]
  apply rounded_le
  rw [← zpow_log_succ_eq p, abs_of_pos hx]
  exact (Int.lt_zpow_succ_log_self (by norm_num) x).le

theorem zpow_le_rounded (hp : 1 ≤ p) (hx : 0 < x) : 2 ^ Int.log 2 |x| ≤ rounded p x := by
  rw [zpow_log_eq hp]
  apply le_rounded
  rw [← zpow_log_eq hp, abs_of_pos hx]
  exact Int.zpow_log_le_self (by norm_num) hx

theorem rounded_le_neg_zpow (hp : 1 ≤ p) (hx : x < 0) : rounded p x ≤ -2 ^ Int.log 2 |x| := by
  rw [zpow_log_eq hp, ← neg_mul, ← Int.cast_neg]
  apply rounded_le
  rw [Int.cast_neg, neg_mul, ← zpow_log_eq hp]
  have hlog := Int.zpow_log_le_self (b := 2) (by norm_num) (abs_pos.mpr hx.ne)
  rw [abs_of_neg hx] at hlog ⊢
  exact le_neg_of_le_neg hlog

theorem neg_zpow_le_rounded (hx : x < 0) : -2 ^ (Int.log 2 |x| + 1) ≤ rounded p x := by
  rw [zpow_log_succ_eq p, ← neg_mul, ← Int.cast_neg]
  apply le_rounded
  rw [Int.cast_neg, neg_mul, ← zpow_log_succ_eq p]
  have hlog := Int.lt_zpow_succ_log_self (b := 2) (by norm_num) |x|
  rw [abs_of_neg hx] at hlog ⊢
  exact (neg_lt.mp hlog).le

theorem rounded_nonneg (hx : 0 ≤ x) : 0 ≤ rounded p x := by
  have := le_rounded (p := p) (m := 0) (x := x) (by simpa using hx)
  simpa using this

theorem rounded_nonpos (hx : x ≤ 0) : rounded p x ≤ 0 := by
  have := rounded_le (p := p) (m := 0) (x := x) (by simpa using hx)
  simpa using this

/-- Results of one size are rounded to multiples of one spacing. -/
theorem rounded_mono_of_log_eq (h : x ≤ y) (hlog : Int.log 2 |x| = Int.log 2 |y|) :
    rounded p x ≤ rounded p y := by
  have hspacing : spacing p x = spacing p y := by
    unfold spacing
    rw [hlog]
  have hnearest : nearest (x / spacing p x) ≤ nearest (y / spacing p y) := by
    rw [hspacing]
    exact nearest_mono (div_le_div_of_nonneg_right h (spacing_pos p y).le)
  have hcast : (nearest (x / spacing p x) : K) ≤ nearest (y / spacing p y) := by
    exact_mod_cast hnearest
  rw [rounded, rounded, hspacing] at *
  exact mul_le_mul_of_nonneg_right hcast (spacing_pos p y).le

/-- **Rounding is monotone.** -/
theorem rounded_mono (hp : 1 ≤ p) (h : x ≤ y) : rounded p x ≤ rounded p y := by
  rcases lt_or_ge 0 x with hx | hx
  · have hy : 0 < y := lt_of_lt_of_le hx h
    have hlog : Int.log 2 |x| ≤ Int.log 2 |y| := by
      rw [abs_of_pos hx, abs_of_pos hy]
      exact Int.log_mono_right hx h
    rcases hlog.eq_or_lt with heq | hlt
    · exact rounded_mono_of_log_eq h heq
    · calc rounded p x
          ≤ 2 ^ (Int.log 2 |x| + 1) := rounded_le_zpow hx
        _ ≤ 2 ^ Int.log 2 |y| := zpow_le_zpow_right₀ one_le_two hlt
        _ ≤ rounded p y := zpow_le_rounded hp hy
  · rcases lt_or_ge y 0 with hy | hy
    · have hx : x < 0 := lt_of_le_of_lt h hy
      have hlog : Int.log 2 |y| ≤ Int.log 2 |x| := by
        rw [abs_of_neg hx, abs_of_neg hy]
        exact Int.log_mono_right (neg_pos.mpr hy) (neg_le_neg h)
      rcases hlog.eq_or_lt with heq | hlt
      · exact rounded_mono_of_log_eq h heq.symm
      · calc rounded p x
            ≤ -2 ^ Int.log 2 |x| := rounded_le_neg_zpow hp hx
          _ ≤ -2 ^ (Int.log 2 |y| + 1) := neg_le_neg (zpow_le_zpow_right₀ one_le_two hlt)
          _ ≤ rounded p y := neg_zpow_le_rounded hy
    · exact (rounded_nonpos hx).trans (rounded_nonneg hy)

/-- The integer part, towards zero. -/
def truncated (x : K) : ℤ := if 0 ≤ x then ⌊x⌋ else ⌈x⌉

omit [IsStrictOrderedRing K] in
theorem truncated_nonneg (hx : 0 ≤ x) : 0 ≤ truncated x := by
  rw [truncated, if_pos hx]
  exact Int.floor_nonneg.mpr hx

omit [IsStrictOrderedRing K] in
theorem truncated_mono (h : x ≤ y) : truncated x ≤ truncated y := by
  rcases lt_or_ge x 0 with hx | hx
  · rcases lt_or_ge y 0 with hy | hy
    · rw [truncated, truncated, if_neg hx.not_ge, if_neg hy.not_ge]
      exact Int.ceil_mono h
    · have hceil : truncated x ≤ 0 := by
        rw [truncated, if_neg hx.not_ge]
        exact Int.ceil_le.mpr (by exact_mod_cast hx.le)
      exact hceil.trans (truncated_nonneg hy)
  · rw [truncated, truncated, if_pos hx, if_pos (hx.trans h)]
    exact Int.floor_mono h

end FloatRounding
