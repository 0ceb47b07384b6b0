import Timeline.Binary64.Basic

/-!
# The shortest decimal that reads back

Every real number close enough to a double rounds to it, and these numbers form an interval
around the double; its ends belong to it if the mantissa is even, since ties go to the even
mantissa. The decimal `shortest x` is taken from the coarsest grid `10 ^ k` that has a point in
the interval of `x`: of its points there the one nearest to `x`, on a tie the even one. No
decimal with fewer digits rounds to `x`.

The text of a decimal is a matter of style: `DecimalStyle` says between which positions of the
decimal point the digits are written out, and all else is written with a power of ten.
-/

namespace Timeline

/-- The number `coefficient · 10 ^ exponent`. -/
structure Decimal where
  coefficient : Nat
  exponent : Int
  deriving DecidableEq, Repr

namespace Binary64

/-! ## The interval that rounds to a double -/

/-- Four times the mantissa, so that the ends of the interval are whole. -/
def middle (x : Binary64) : Nat := 4 * x.mantissa

/-- The lower end is a half step away, or a quarter step where the doubles below lie closer. -/
def lower (x : Binary64) : Nat :=
  if x.mantissa = Nat.pow 2 52 ∧ leastExponent < x.exponent then x.middle - 1 else x.middle - 2

def upper (x : Binary64) : Nat := x.middle + 2

/-- Whether `coefficient · 10 ^ exponent` rounds to `x`. -/
def admits (x : Binary64) (d : Decimal) : Bool :=
  let ten := Nat.pow 10 d.exponent.toNat * Nat.pow 2 (2 - x.exponent).toNat
  let two := Nat.pow 10 (-d.exponent).toNat * Nat.pow 2 (x.exponent - 2).toNat
  let point := d.coefficient * ten
  if x.mantissa % 2 = 0 then decide (x.lower * two ≤ point ∧ point ≤ x.upper * two)
  else decide (x.lower * two < point ∧ point < x.upper * two)

/-! ## The search -/

/-- The point of the grid `10 ^ exponent` that rounds to `x`: of the two neighbours of `x` there
the nearer one that does, on a tie the even one. -/
def pointOn (x : Binary64) (exponent : Int) : Option Decimal :=
  let ten := Nat.pow 10 exponent.toNat * Nat.pow 2 (2 - x.exponent).toNat
  let two := Nat.pow 10 (-exponent).toNat * Nat.pow 2 (x.exponent - 2).toNat
  let below : Decimal := ⟨x.middle * two / ten, exponent⟩
  let above : Decimal := ⟨x.middle * two / ten + 1, exponent⟩
  match x.admits below, x.admits above with
  | true, true => some ⟨roundHalfEven (x.middle * two) ten, exponent⟩
  | true, false => some below
  | false, true => some above
  | false, false => none

/-- A grid on which `x` lies below the first point after zero. -/
def coarsestGrid (x : Binary64) : Int :=
  ((x.mantissa.log2 : Int) + 1 + x.exponent) * 30103 / 100000 + 1

/-- Go from grid to finer grid until a point rounds to `x`. -/
def refine (x : Binary64) : Nat → Int → Option Decimal
  | 0, exponent => x.pointOn exponent
  | steps + 1, exponent => (x.pointOn exponent).or (refine x steps (exponent - 1))

/-- Seventeen digits tell any two doubles apart, so twenty grids are enough. -/
def shortest (x : Binary64) : Decimal :=
  if x.isZero then ⟨0, 0⟩ else (x.refine 19 x.coarsestGrid).getD ⟨0, 0⟩

end Binary64

/-! ## The text of a decimal -/

/-- Digits are written out where the decimal point stands after position `leastPoint` and up to
position `greatestPoint`, counted from the first digit. -/
structure DecimalStyle where
  leastPoint : Int
  greatestPoint : Int
  /-- A power of ten that is not negative is written with a plus sign. -/
  showsPlus : Bool
  deriving DecidableEq, Repr

namespace DecimalStyle

def integer (z : Int) : List Char :=
  if z < 0 then '-' :: Nat.toDigits 10 z.natAbs else Nat.toDigits 10 z.natAbs

/-- Digits with the decimal point after `point` of them, at least one digit on both sides. -/
def writtenOut (digits : List Char) (point : Int) : List Char :=
  if point ≤ 0 then '0' :: '.' :: List.replicate (-point).toNat '0' ++ digits
  else if (digits.length : Int) ≤ point then
    digits ++ List.replicate (point.toNat - digits.length) '0' ++ ['.', '0']
  else digits.take point.toNat ++ '.' :: digits.drop point.toNat

/-- A power of ten, without leading zeros. -/
def power (style : DecimalStyle) (z : Int) : List Char :=
  'e' :: (if style.showsPlus ∧ 0 ≤ z then '+' :: integer z else integer z)

/-- One digit before the decimal point, which is left out where no digit follows. -/
def withPower (style : DecimalStyle) (digits : List Char) (point : Int) : List Char :=
  let fraction := digits.drop 1
  digits.take 1 ++ (if fraction.isEmpty then [] else '.' :: fraction) ++ style.power (point - 1)

def render (style : DecimalStyle) (d : Decimal) : List Char :=
  let digits := Nat.toDigits 10 d.coefficient
  let point := digits.length + d.exponent
  if style.leastPoint < point ∧ point ≤ style.greatestPoint then writtenOut digits point
  else style.withPower digits point

end DecimalStyle

/-! ## Examples -/

example : (Binary64.mk 7205759403792794 (-56)).shortest = ⟨1, -1⟩ := by decide +kernel

/-- The smallest double: of the points that read back, the nearest. -/
example : (Binary64.mk 1 (-1074)).shortest = ⟨5, -324⟩ := by decide +kernel

/-- A power of two, where the doubles below lie closer. -/
example : (Binary64.mk (2 ^ 52) (-105)).shortest = ⟨11102230246251565, -32⟩ := by decide +kernel

end Timeline
