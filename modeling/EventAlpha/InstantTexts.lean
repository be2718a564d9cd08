import EventAlpha.CivilTime
import EventAlpha.DigitTexts
import Mathlib.Algebra.Group.Nat.Defs
import Mathlib.Algebra.Order.Group.Unbundled.Int
import Mathlib.Data.List.Basic
import Mathlib.Tactic.Zify

/-!
# Reading an instant back from its text

A date gives back its day (`daysOf_civilDate`): the year of a cycle, and with it
the day of the year, is never further than the leap days allow.  A padded number
gives back its value, and all but the year have a fixed width, so the text of an
instant from year one on gives back the instant (`isoformatMicroseconds_inj`).
-/

namespace CivilTime

section Dates

/-- The year of its cycle in which a day lies. -/
def yearOfCycle (dayOfCycle : Int) : Int :=
  (dayOfCycle - dayOfCycle / 1460 + dayOfCycle / 36524 - dayOfCycle / 146096) / 365

/-- The day of its year, counted from March. -/
def dayOfYear (dayOfCycle : Int) : Int :=
  dayOfCycle - (365 * yearOfCycle dayOfCycle + yearOfCycle dayOfCycle / 4 -
    yearOfCycle dayOfCycle / 100)

variable {dayOfCycle days : Int}

theorem yearOfCycle_bounds (hnonneg : 0 ≤ dayOfCycle) (hlt : dayOfCycle < 146097) :
    0 ≤ yearOfCycle dayOfCycle ∧ yearOfCycle dayOfCycle ≤ 399 := by
  unfold yearOfCycle
  omega

/-- A year has at least its ordinary days and at most one leap day. -/
theorem dayOfYear_bounds (hnonneg : 0 ≤ dayOfCycle) (hlt : dayOfCycle < 146097) :
    0 ≤ dayOfYear dayOfCycle ∧ dayOfYear dayOfCycle ≤ 366 := by
  obtain ⟨year, hyear⟩ : ∃ year, year = yearOfCycle dayOfCycle := ⟨_, rfl⟩
  have hdef : year = (dayOfCycle - dayOfCycle / 1460 + dayOfCycle / 36524 -
      dayOfCycle / 146096) / 365 := hyear
  -- the leap days of four years and of a hundred years, up to the day
  have hfour : year / 4 ≤ dayOfCycle / 1460 := by omega
  have hfour' : dayOfCycle / 1460 ≤ year / 4 + 1 := by omega
  have hhundred : dayOfCycle / 36524 - dayOfCycle / 146096 ≤ year / 100 := by omega
  have hhundred' : year / 100 ≤ dayOfCycle / 36524 - dayOfCycle / 146096 + 1 := by omega
  unfold dayOfYear
  rw [← hyear]
  omega

/-- What a date is made of: its cycle, its year of the cycle, its day of that
year and its month, all counted from March. -/
theorem civilDate_parts (days : Int) : ∃ cycle year day month : Int,
    days + 719468 = cycle * 146097 + (365 * year + year / 4 - year / 100 + day) ∧
    (0 ≤ 365 * year + year / 4 - year / 100 + day ∧
      365 * year + year / 4 - year / 100 + day < 146097) ∧
    (0 ≤ year ∧ year ≤ 399) ∧ (0 ≤ day ∧ day ≤ 366) ∧ month = (5 * day + 2) / 153 ∧
    civilDate days = ⟨year + cycle * 400 + if (if month < 10 then month + 3 else month - 9) ≤ 2
      then 1 else 0, if month < 10 then month + 3 else month - 9,
      day - (153 * month + 2) / 5 + 1⟩ := by
  have hnonneg : 0 ≤ (days + 719468) % 146097 := by omega
  have hlt : (days + 719468) % 146097 < 146097 := by omega
  have hsplit : 365 * yearOfCycle ((days + 719468) % 146097) +
      yearOfCycle ((days + 719468) % 146097) / 4 -
      yearOfCycle ((days + 719468) % 146097) / 100 + dayOfYear ((days + 719468) % 146097) =
      (days + 719468) % 146097 := by
    unfold dayOfYear
    omega
  refine ⟨(days + 719468) / 146097, _, _, _, ?_, ?_, yearOfCycle_bounds hnonneg hlt,
    dayOfYear_bounds hnonneg hlt, rfl, rfl⟩
  · rw [hsplit]
    omega
  · rw [hsplit]
    exact ⟨hnonneg, hlt⟩

/-- The day of a date, counted from the start of 1970. -/
def daysOf (date : CivilDate) : Int :=
  let year := date.year - if date.month ≤ 2 then 1 else 0
  let yearOfCycle := year % 400
  let monthFromMarch := if date.month ≤ 2 then date.month + 9 else date.month - 3
  year / 400 * 146097 + (365 * yearOfCycle + yearOfCycle / 4 - yearOfCycle / 100) +
    ((153 * monthFromMarch + 2) / 5 + date.day - 1) - 719468

/-- A date gives back its day. -/
theorem daysOf_civilDate (days : Int) : daysOf (civilDate days) = days := by
  obtain ⟨cycle, year, day, month, hdays, -, hyear, hday, hmonth, hdate⟩ := civilDate_parts days
  have hcycle : (year + cycle * 400) / 400 = cycle := by omega
  have hofCycle : (year + cycle * 400) % 400 = year := by omega
  rw [hdate]
  by_cases hspring : month < 10
  · have hlate : ¬month + 3 ≤ 2 := by omega
    simp only [daysOf, if_pos hspring, if_neg hlate, Int.add_zero, Int.sub_zero, hcycle, hofCycle,
      Int.add_sub_cancel]
    omega
  · have hearly : month - 9 ≤ 2 := by omega
    simp only [daysOf, if_neg hspring, if_pos hearly, Int.add_sub_cancel, hcycle, hofCycle,
      Int.sub_add_cancel]
    omega

/-- The month and the day of a date have at most two digits. -/
theorem civilDate_bounds (days : Int) :
    (1 ≤ (civilDate days).month ∧ (civilDate days).month ≤ 12) ∧
      (1 ≤ (civilDate days).day ∧ (civilDate days).day ≤ 31) := by
  obtain ⟨cycle, year, day, month, -, -, hyear, hday, hmonth, hdate⟩ := civilDate_parts days
  rw [hdate]
  refine ⟨?_, by dsimp only; omega⟩
  dsimp only
  split <;> omega

/-- The years from year one on are positive. -/
theorem year_pos (h : -719162 ≤ days) : 1 ≤ (civilDate days).year := by
  obtain ⟨cycle, year, day, month, hdays, hcycle, hyear, hday, hmonth, hdate⟩ :=
    civilDate_parts days
  rw [hdate]
  dsimp only
  have hpast : 0 ≤ cycle := by omega
  -- year zero of cycle zero ends in February of year one, and no later day is in it
  rcases (show 1 ≤ year + cycle * 400 ∨ cycle = 0 ∧ year = 0 by omega) with hlater | ⟨hzero, hfirst⟩
  · split <;> omega
  · rw [hzero, hfirst] at hdays
    rw [if_neg (by omega : ¬month < 10), if_pos (by omega : month - 9 ≤ 2)]
    omega

/-- The years up to 9999 have at most four digits. -/
theorem year_le (h : days ≤ 2932896) : (civilDate days).year ≤ 9999 := by
  obtain ⟨cycle, year, day, month, hdays, hcycle, hyear, hday, hmonth, hdate⟩ :=
    civilDate_parts days
  rw [hdate]
  dsimp only
  have hpast : cycle ≤ 24 := by omega
  -- the last year of cycle 24 ends with December of year 9999
  rcases (show year + cycle * 400 ≤ 9998 ∨ cycle = 24 ∧ year = 399 by omega)
    with hearlier | ⟨hlast, hfinal⟩
  · split <;> omega
  · rw [hlast, hfinal] at hdays
    rw [if_pos (by omega : month < 10), if_neg (by omega : ¬month + 3 ≤ 2)]
    omega

end Dates

section Numbers

variable {width n m : ℕ}

/-- The number that digits denote. -/
def readNumber (text : List Char) : ℕ := Nat.ofDigitChars 10 text 0

/-- A padded number gives back its value. -/
@[simp] theorem readNumber_padded (width : ℕ) (n : Int) : readNumber (padded width n) = n.natAbs := by
  rw [readNumber, padded, DigitTexts.ofDigitChars_leftpad]

/-- A number that fits is padded to exactly its width. -/
theorem length_padded {n : Int} (hwidth : 0 < width) (hn : n.natAbs < 10 ^ width) :
    (padded width n).length = width := by
  have hdigits := (Nat.length_toDigits_le_iff (by decide) hwidth).mpr hn
  rw [padded, List.length_leftpad]
  omega

/-- A padded number is all digits. -/
theorem isDigit_of_mem_padded {n : Int} {c : Char} (hc : c ∈ padded width n) : c.isDigit = true := by
  rw [padded] at hc
  exact DigitTexts.isDigit_of_mem_leftpad hc

theorem padded_inj {n m : Int} (hn : 0 ≤ n) (hm : 0 ≤ m) (h : padded width n = padded width m) :
    n = m := by
  have hread := congrArg readNumber h
  rw [readNumber_padded, readNumber_padded] at hread
  omega

/-- A text is cut before a padded number of known width. -/
theorem append_padded_inj {p p' : List Char} {mark : Char} {n m : Int} (hwidth : 0 < width)
    (hn : 0 ≤ n ∧ n < 10 ^ width) (hm : 0 ≤ m ∧ m < 10 ^ width)
    (h : p ++ mark :: padded width n = p' ++ mark :: padded width m) : p = p' ∧ n = m := by
  have hfits : n.natAbs < 10 ^ width := by
    zify
    rw [abs_of_nonneg hn.1]
    exact_mod_cast hn.2
  have hfits' : m.natAbs < 10 ^ width := by
    zify
    rw [abs_of_nonneg hm.1]
    exact_mod_cast hm.2
  obtain ⟨hp, hnumber⟩ := List.append_inj' h (by
    rw [List.length_cons, List.length_cons, length_padded hwidth hfits, length_padded hwidth hfits'])
  exact ⟨hp, padded_inj hn.1 hm.1 (List.cons_eq_cons.mp hnumber).2⟩

end Numbers

section Instants

/-- The first instant of year one. -/
def firstInstant : Int := -62135596800000000

/-- The last instant of year 9999. -/
def lastInstant : Int := 253402300799999999

variable {instant instant' : Int}

/-- The text of an instant from year one on gives back the instant. -/
theorem isoformatMicroseconds_inj (hfirst : firstInstant ≤ instant)
    (hfirst' : firstInstant ≤ instant')
    (h : isoformatMicroseconds instant = isoformatMicroseconds instant') : instant = instant' := by
  obtain ⟨days, hdays⟩ : ∃ days, days = instant / 1000000 / 86400 := ⟨_, rfl⟩
  obtain ⟨days', hdays'⟩ : ∃ days, days = instant' / 1000000 / 86400 := ⟨_, rfl⟩
  unfold firstInstant at hfirst hfirst'
  have hyear : 1 ≤ (civilDate days).year := year_pos (by omega)
  have hyear' : 1 ≤ (civilDate days').year := year_pos (by omega)
  obtain ⟨hmonth, hday⟩ := civilDate_bounds days
  obtain ⟨hmonth', hday'⟩ := civilDate_bounds days'
  have htext := List.append_cancel_right (String.ofList_injective h)
  rw [isoFraction, isoFraction, isoSeconds, isoSeconds, ← hdays, ← hdays'] at htext
  -- from the right, the fields of fixed width are cut off one by one
  obtain ⟨htext, hfraction⟩ := append_padded_inj (by decide) (by omega) (by omega) htext
  obtain ⟨htext, hsecond⟩ := append_padded_inj (by decide) (by omega) (by omega) htext
  obtain ⟨htext, hminute⟩ := append_padded_inj (by decide) (by omega) (by omega) htext
  obtain ⟨htext, hhour⟩ := append_padded_inj (by decide) (by omega) (by omega) htext
  obtain ⟨htext, hdayEq⟩ := append_padded_inj (by decide) (by omega) (by omega) htext
  obtain ⟨htext, hmonthEq⟩ := append_padded_inj (by decide) (by omega) (by omega) htext
  have hyearEq := padded_inj (by omega) (by omega) htext
  have hdate : civilDate days = civilDate days' := by
    rw [CivilDate.mk.injEq]
    exact ⟨hyearEq, hmonthEq, hdayEq⟩
  have hdaysEq := congrArg daysOf hdate
  rw [daysOf_civilDate, daysOf_civilDate] at hdaysEq
  omega

/-- The number in a part of a text. -/
def partAt (text : List Char) (start length : ℕ) : Int :=
  readNumber ((text.drop start).take length)

/-- The instant that a text of fixed fields denotes, with or without a fraction
of six digits. -/
def readInstant (text : List Char) : Int :=
  (daysOf ⟨partAt text 0 4, partAt text 5 2, partAt text 8 2⟩ * 86400 + partAt text 11 2 * 3600 +
    partAt text 14 2 * 60 + partAt text 17 2) * 1000000 +
    if text[19]? = some '.' then partAt text 20 6 else 0

/-- The parts of a text of fields of known width. -/
theorem parts_fields {year month day hour minute second : List Char} (rest : List Char)
    (hyear : year.length = 4) (hmonth : month.length = 2) (hday : day.length = 2)
    (hhour : hour.length = 2) (hminute : minute.length = 2) (hsecond : second.length = 2) :
    let text := year ++ '-' :: month ++ '-' :: day ++ 'T' :: hour ++ ':' :: minute ++
      ':' :: second ++ rest
    (partAt text 0 4 = readNumber year ∧ partAt text 5 2 = readNumber month ∧
      partAt text 8 2 = readNumber day) ∧ (partAt text 11 2 = readNumber hour ∧
      partAt text 14 2 = readNumber minute ∧ partAt text 17 2 = readNumber second) ∧
      text[19]? = rest[0]? ∧ partAt text 20 6 = readNumber ((rest.drop 1).take 6) := by
  obtain ⟨y₀, year, rfl⟩ := List.exists_cons_of_length_eq_add_one hyear
  obtain ⟨y₁, y₂, y₃, rfl⟩ := List.length_eq_three.mp (Nat.succ.inj hyear)
  obtain ⟨m₀, m₁, rfl⟩ := List.length_eq_two.mp hmonth
  obtain ⟨d₀, d₁, rfl⟩ := List.length_eq_two.mp hday
  obtain ⟨h₀, h₁, rfl⟩ := List.length_eq_two.mp hhour
  obtain ⟨n₀, n₁, rfl⟩ := List.length_eq_two.mp hminute
  obtain ⟨s₀, s₁, rfl⟩ := List.length_eq_two.mp hsecond
  simp [partAt]

/-- The text of an instant is read back. -/
theorem readInstant_isoSeconds (hfirst : firstInstant ≤ instant) (hlast : instant ≤ lastInstant)
    {rest : List Char} (hrest : ∀ c ∈ rest.head?, c ≠ '.') :
    readInstant (isoSeconds instant ++
      (if instant % 1000000 = 0 then [] else isoFraction instant) ++ rest) = instant := by
  obtain ⟨fraction, hfraction⟩ : ∃ fraction, fraction =
    if instant % 1000000 = 0 then [] else isoFraction instant := ⟨_, rfl⟩
  rw [← hfraction]
  obtain ⟨days, hdays⟩ : ∃ days, days = instant / 1000000 / 86400 := ⟨_, rfl⟩
  unfold firstInstant at hfirst
  unfold lastInstant at hlast
  have hyear : 1 ≤ (civilDate days).year := year_pos (by omega)
  have hyear' : (civilDate days).year ≤ 9999 := year_le (by omega)
  obtain ⟨hmonth, hday⟩ := civilDate_bounds days
  have hlength : ∀ {width : ℕ} {n : Int}, 0 < width → n.natAbs < 10 ^ width →
      (padded width n).length = width := length_padded
  obtain ⟨⟨hy, hmo, hd⟩, ⟨hh, hmi, hs⟩, hmark, hf⟩ := parts_fields (fraction ++ rest)
    (hlength (by decide) (by omega : (civilDate days).year.natAbs < 10 ^ 4))
    (hlength (by decide) (by omega : (civilDate days).month.natAbs < 10 ^ 2))
    (hlength (by decide) (by omega : (civilDate days).day.natAbs < 10 ^ 2))
    (hlength (by decide) (by omega : (instant / 1000000 % 86400 / 3600).natAbs < 10 ^ 2))
    (hlength (by decide) (by omega : (instant / 1000000 % 86400 / 60 % 60).natAbs < 10 ^ 2))
    (hlength (by decide) (by omega : (instant / 1000000 % 86400 % 60).natAbs < 10 ^ 2))
  have htext : isoSeconds instant ++ fraction ++ rest = padded 4 (civilDate days).year ++
      '-' :: padded 2 (civilDate days).month ++ '-' :: padded 2 (civilDate days).day ++
      'T' :: padded 2 (instant / 1000000 % 86400 / 3600) ++
      ':' :: padded 2 (instant / 1000000 % 86400 / 60 % 60) ++
      ':' :: padded 2 (instant / 1000000 % 86400 % 60) ++ (fraction ++ rest) := by
    rw [isoSeconds, ← hdays, List.append_assoc]
  have hdate : daysOf ⟨((civilDate days).year.natAbs : Int), ((civilDate days).month.natAbs : Int),
      ((civilDate days).day.natAbs : Int)⟩ = days := by
    rw [Int.natAbs_of_nonneg (by omega), Int.natAbs_of_nonneg (by omega),
      Int.natAbs_of_nonneg (by omega)]
    exact daysOf_civilDate days
  have hmicro : (if (fraction ++ rest)[0]? = some '.' then
      (readNumber (((fraction ++ rest).drop 1).take 6) : Int) else 0) = instant % 1000000 := by
    rw [hfraction]
    by_cases hwhole : instant % 1000000 = 0
    · rw [if_pos hwhole, List.nil_append, ← List.head?_eq_getElem?, hwhole]
      exact if_neg (fun hpoint => hrest '.' hpoint rfl)
    · have htake : ((isoFraction instant ++ rest).drop 1).take 6 =
          padded 6 (instant % 1000000) := by
        rw [isoFraction, List.cons_append, List.drop_succ_cons, List.drop_zero]
        exact List.take_left' (hlength (by decide) (by omega))
      have hpoint : (isoFraction instant ++ rest)[0]? = some '.' := rfl
      rw [if_neg hwhole, htake, readNumber_padded, if_pos hpoint]
      omega
  rw [readInstant, htext, hy, hmo, hd, hh, hmi, hs, hmark, hf, hmicro]
  simp only [readNumber_padded]
  rw [hdate]
  omega

/-- The text of an instant has neither blanks nor control characters. -/
theorem lt_of_mem_isoformatMicroseconds {c : Char}
    (hc : c ∈ (isoformatMicroseconds instant).toList) : ' ' < c := by
  have hpadded : ∀ (width : ℕ) (n : Int), ∀ c ∈ padded width n, ' ' < c :=
    fun _ _ _ hmem => DigitTexts.lt_of_isDigit (isDigit_of_mem_padded hmem)
  revert c
  simp only [isoformatMicroseconds, isoSeconds, isoFraction, utcOffset, String.toList_ofList,
    List.forall_mem_append, List.forall_mem_cons]
  and_intros <;> first | exact hpadded _ _ | exact List.forall_mem_nil _ | decide

/-- The text of an instant within the years 1 to 9999 is short. -/
theorem length_isoformat_le (hfirst : firstInstant ≤ instant) (hlast : instant ≤ lastInstant) :
    (isoformat instant).length ≤ 32 := by
  obtain ⟨days, hdays⟩ : ∃ days, days = instant / 1000000 / 86400 := ⟨_, rfl⟩
  unfold firstInstant at hfirst
  unfold lastInstant at hlast
  have hyear : 1 ≤ (civilDate days).year := year_pos (by omega)
  have hyear' : (civilDate days).year ≤ 9999 := year_le (by omega)
  obtain ⟨hmonth, hday⟩ := civilDate_bounds days
  have hlength : ∀ {width : ℕ} {n : Int}, 0 < width → n.natAbs < 10 ^ width →
      (padded width n).length = width := length_padded
  have hseconds : (isoSeconds instant).length = 19 := by
    rw [isoSeconds, ← hdays]
    simp only [List.length_append, List.length_cons]
    rw [hlength (by decide) (by omega), hlength (by decide) (by omega),
      hlength (by decide) (by omega), hlength (by decide) (by omega),
      hlength (by decide) (by omega), hlength (by decide) (by omega)]
  have hfraction : (isoFraction instant).length = 7 := by
    rw [isoFraction, List.length_cons, hlength (by decide) (by omega)]
  rw [isoformat, String.length_ofList, List.length_append, List.length_append, hseconds]
  split
  · decide
  · rw [hfraction]
    decide

end Instants

end CivilTime
