/-!
# Doubles as exact numbers

The magnitude of a finite double is `mantissa · 2 ^ exponent` with a mantissa below `2 ^ 53` and
an exponent of at least `-1074`. It is canonical: either the mantissa is at least `2 ^ 52` or the
exponent is `-1074`. Every operation is the exact one on rationals followed by one rounding, to
the nearest double and on a tie to the one with an even mantissa; a magnitude that rounds to
`2 ^ 1024` or more has no double.
-/

namespace Timeline

/-- The magnitude `mantissa · 2 ^ exponent` of a finite double. -/
structure Binary64 where
  mantissa : Nat
  exponent : Int
  deriving DecidableEq, Repr

namespace Binary64

/-- The exponent of the smallest doubles. -/
def leastExponent : Int := -1074

/-- The exponent of the largest doubles. -/
def greatestExponent : Int := 971

def zero : Binary64 := ⟨0, leastExponent⟩

/-- The integer nearest to `num / den`, of two the even one. -/
def roundHalfEven (num den : Nat) : Nat :=
  let whole := num / den
  let rest := 2 * (num % den)
  if rest < den ∨ (rest = den ∧ whole % 2 = 0) then whole else whole + 1

/-- The nearest integer to `num / den · 2 ^ (-exponent)`. -/
def scaledMantissa (num den : Nat) (exponent : Int) : Nat :=
  roundHalfEven (num * Nat.pow 2 (-exponent).toNat) (den * Nat.pow 2 exponent.toNat)

/-- The exponent at which `num / den` has a mantissa of 53 bits, or the least one. -/
def fittingExponent (num den : Nat) : Int :=
  let guess : Int := (num.log2 : Int) - den.log2 - 52
  let reached := den * Nat.pow 2 (52 + guess).toNat ≤ num * Nat.pow 2 (-(52 + guess)).toNat
  max (if reached then guess else guess - 1) leastExponent

/-- The double nearest to `num / den`. -/
def ofRatio (num den : Nat) : Option Binary64 :=
  if num = 0 then some zero
  else
    let exponent := fittingExponent num den
    let mantissa := scaledMantissa num den exponent
    let rounded : Binary64 :=
      if mantissa = Nat.pow 2 53 then ⟨Nat.pow 2 52, exponent + 1⟩ else ⟨mantissa, exponent⟩
    if rounded.exponent ≤ greatestExponent then some rounded else none

/-- The double nearest to `num / den · 2 ^ shift`. -/
def ofScaledRatio (num den : Nat) (shift : Int) : Option Binary64 :=
  ofRatio (num * Nat.pow 2 shift.toNat) (den * Nat.pow 2 (-shift).toNat)

def mul (x y : Binary64) : Option Binary64 :=
  ofScaledRatio (x.mantissa * y.mantissa) 1 (x.exponent + y.exponent)

/-- The divisor is not zero. -/
def div (x y : Binary64) : Option Binary64 :=
  ofScaledRatio x.mantissa y.mantissa (x.exponent - y.exponent)

def isZero (x : Binary64) : Bool := x.mantissa == 0

/-- The double nearest to `10 ^ power`. -/
def powerOfTen (power : Nat) : Option Binary64 := ofRatio (Nat.pow 10 power) 1

/-- The last power of ten that is below the largest double. -/
def greatestPower : Nat := 308

/-! ## Examples -/

/-- One tenth. -/
example : ofRatio 1 10 = some ⟨7205759403792794, -56⟩ := by decide

/-- A tie goes to the even mantissa. -/
example : ofRatio (2 ^ 53 + 1) 1 = some ⟨2 ^ 52, 1⟩ := by decide

/-- Half of the smallest double is a tie with zero. -/
example : ofScaledRatio 1 1 (-1075) = some ⟨0, -1074⟩ := by decide +kernel

/-- The first power of ten without a double. -/
example : (powerOfTen greatestPower).isSome ∧ powerOfTen (greatestPower + 1) = none := by
  decide +kernel

end Binary64

end Timeline
