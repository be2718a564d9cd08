import Mathlib.Algebra.Order.Field.Rat
import Mathlib.Data.Rat.Lemmas
import Mathlib.Tactic.Linarith
import Mathlib.Tactic.Positivity

/-!
# Decimal numbers

A finite decimal is a coefficient times a power of ten, and one number has
many of them (`1`, `1.0`, `1.00`).  Three operations matter to a program that
stores decimals: the arithmetic context's `normalize`, which rounds to a number
of significant digits and drops trailing zeros, the plain positional text
`fixedText`, and `toScale`, the rounding of a database column of type
`NUMERIC(p, s)`.  The first rounds half to even, the last half away from zero.
-/

/-- A finite decimal number. -/
structure Decimal where
  coefficient : Int
  exponent : Int
  deriving DecidableEq, Repr

namespace Decimal

/-- The number a decimal denotes. -/
def value (d : Decimal) : ℚ :=
  if 0 ≤ d.exponent then ((d.coefficient * 10 ^ d.exponent.toNat : ℤ) : ℚ)
  else mkRat d.coefficient (10 ^ (-d.exponent).toNat)

/-- The number of digits of a coefficient. -/
def digits (n : ℕ) : ℕ := (Nat.toDigits 10 n).length

/-- Division rounded half to even. -/
def divHalfEven (n m : ℕ) : ℕ :=
  if 2 * (n % m) < m then n / m
  else if m < 2 * (n % m) then n / m + 1
  else if n / m % 2 = 0 then n / m
  else n / m + 1

/-- Division rounded half up. -/
def divHalfUp (n m : ℕ) : ℕ :=
  if 2 * (n % m) < m then n / m else n / m + 1

/-- Drop the trailing zeros of a coefficient, at most `fuel` of them. -/
def stripZeros : ℕ → ℕ → Int → ℕ × Int
  | 0, c, e => (c, e)
  | fuel + 1, c, e => if c % 10 = 0 then stripZeros fuel (c / 10) (e + 1) else (c, e)

/-- A decimal from its sign, its magnitude and its exponent. -/
def signed (negative : Bool) (magnitude : ℕ) (exponent : Int) : Decimal :=
  ⟨if negative then -magnitude else magnitude, exponent⟩

/-- The limits of an arithmetic context. -/
structure Context where
  precision : ℕ
  emax : Int
  emin : Int

/-- The least exponent of a number of the context. -/
def Context.etiny (context : Context) : Int := context.emin - context.precision + 1

/-- `Decimal.normalize`: round to the precision of the context, half to even,
and drop trailing zeros.  A number beyond the greatest exponent raises, one
below the least exponent is rounded there. -/
def normalize (context : Context) (d : Decimal) : Option Decimal :=
  let magnitude := d.coefficient.natAbs
  let adjusted := d.exponent + digits magnitude - 1
  let target := max d.exponent (max (adjusted - context.precision + 1) context.etiny)
  let rounded := divHalfEven magnitude (10 ^ (target - d.exponent).toNat)
  if rounded = 0 then some ⟨0, 0⟩
  else if context.emax < target + digits rounded - 1 then none
  else
    let stripped := stripZeros (digits rounded) rounded target
    some (signed (d.coefficient < 0) stripped.1 stripped.2)

/-- `format(d, "f")`: the positional text of a decimal. -/
def fixedText (d : Decimal) : String :=
  let sign := if d.coefficient < 0 then ['-'] else []
  let text := Nat.toDigits 10 d.coefficient.natAbs
  if 0 ≤ d.exponent then
    String.ofList (sign ++ text ++ if d.coefficient = 0 then [] else
      List.replicate d.exponent.toNat '0')
  else
    let scale := (-d.exponent).toNat
    let padded := text.leftpad (scale + 1) '0'
    String.ofList (sign ++ padded.take (padded.length - scale) ++
      '.' :: padded.drop (padded.length - scale))

/-- The decimal of a given scale nearest to `d`, half away from zero. -/
def toScale (scale : ℕ) (d : Decimal) : Decimal :=
  let magnitude := d.coefficient.natAbs
  signed (d.coefficient < 0)
    (if -scale ≤ d.exponent then magnitude * 10 ^ (d.exponent + scale).toNat
      else divHalfUp magnitude (10 ^ (-scale - d.exponent).toNat))
    (-scale)

end Decimal
