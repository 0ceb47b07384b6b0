import Timeline.Json.Basic

/-!
# Numerals

A numeral is a number as it is written: a sign, digits, digits after a point, a power of ten. An
integer below `2 ^ 64`, or down to `-2 ^ 63`, is kept as one; `-0` and every other numeral stands
for a double.

The double is found in two steps. The digits are taken up into a significand for as long as it
stays below `2 ^ 64`; a digit before the point that no longer fits counts as a factor of ten, one
after the point is dropped. The significand is rounded to a double, and that is multiplied or
divided by a power of ten, itself rounded to a double, and rounded again. So the result may lie
one step away from the double nearest to the numeral. A numeral that leaves the range of doubles
has no value.
-/

namespace Timeline.Json

/-- A number as written. -/
structure Numeral where
  negative : Bool
  whole : List Char
  fraction : Option (List Char)
  /-- The sign of the power of ten, `true` for a negative one, and its digits. -/
  power : Option (Bool × List Char)
  deriving DecidableEq, Repr

namespace Numeral

/-- The first number that a significand does not reach. -/
def significandLimit : Nat := Nat.pow 2 64

def naturalValue (digits : List Char) : Nat := Nat.ofDigitChars 10 digits 0

/-- Take digits up into a significand while they fit; the rest is given back. -/
def absorb : Nat → List Char → Nat × List Char
  | significand, [] => (significand, [])
  | significand, digit :: rest =>
    let next := significand * 10 + (digit.toNat - '0'.toNat)
    if next < significandLimit then absorb next rest else (significand, digit :: rest)

/-- The significand and the power of ten it stands with. -/
def scientific (n : Numeral) : Nat × Int :=
  let (whole, excess) := absorb 0 n.whole
  let fraction := n.fraction.getD []
  let (significand, dropped) := absorb whole fraction
  let power : Int :=
    match n.power with
    | none => 0
    | some (true, digits) => -naturalValue digits
    | some (false, digits) => naturalValue digits
  (significand, excess.length - (fraction.length - dropped.length : Nat) + power)

/-- Divide by `10 ^ power` with powers of ten that doubles have. Two such divisions leave nothing
of a significand. -/
def divideByPower (x : Binary64) (power : Nat) : Option Binary64 :=
  let step (x : Binary64) (power : Nat) := (Binary64.powerOfTen power).bind x.div
  let most := Binary64.greatestPower
  if power ≤ most then step x power
  else if power ≤ 2 * most then (step x most).bind fun y => step y (power - most)
  else some .zero

/-- The magnitude of a numeral as a double, if it has one. -/
def magnitude? (n : Numeral) : Option Binary64 :=
  let (significand, power) := n.scientific
  (Binary64.ofRatio significand 1).bind fun x =>
    if power < 0 then divideByPower x power.natAbs
    else if x.isZero then some .zero
    else if power.toNat ≤ Binary64.greatestPower then
      (Binary64.powerOfTen power.toNat).bind x.mul
    else none

/-- The integer that a numeral without fraction and power is kept as. -/
def integer? (n : Numeral) : Option Int :=
  if n.fraction.isNone && n.power.isNone then
    let value := naturalValue n.whole
    if n.negative then
      if value = 0 ∨ Nat.pow 2 63 < value then none else some (-value)
    else if value < Nat.pow 2 64 then some value
    else none
  else none

/-- The number a numeral stands for, if it is in range. -/
def number? (n : Numeral) : Option Number :=
  match n.integer? with
  | some value => some (.int value)
  | none => n.magnitude?.map (.double n.negative)

/-! ## Scanning -/

/-- The digits at the front, at least one, and what follows them. -/
def digits? (cs : List Char) : Option (List Char × List Char) :=
  let digits := cs.takeWhile Char.isDigit
  if digits.isEmpty then none else some (digits, cs.dropWhile Char.isDigit)

/-- A point must have digits after it. -/
def fraction? (cs : List Char) : Option (Option (List Char) × List Char) :=
  match cs with
  | '.' :: rest => (digits? rest).map fun (digits, rest) => (some digits, rest)
  | _ => some (none, cs)

/-- The sign of a power of ten, `true` if negative. -/
def powerSign (cs : List Char) : Bool × List Char :=
  match cs with
  | '+' :: rest => (false, rest)
  | '-' :: rest => (true, rest)
  | _ => (false, cs)

/-- The mark of a power of ten must have digits after it. -/
def power? (cs : List Char) : Option (Option (Bool × List Char) × List Char) :=
  match cs with
  | [] => some (none, [])
  | c :: rest =>
    if c = 'e' ∨ c = 'E' then
      let (negative, rest) := powerSign rest
      (digits? rest).map fun (digits, rest) => (some (negative, digits), rest)
    else some (none, c :: rest)

def sign (cs : List Char) : Bool × List Char :=
  match cs with
  | '-' :: rest => (true, rest)
  | _ => (false, cs)

/-- Read a numeral from the front of a text. Digits do not start with a zero, unless it is the
only one. -/
def scan (cs : List Char) : Option (Numeral × List Char) := do
  let (negative, rest) := sign cs
  let (whole, rest) ← digits? rest
  if whole.head? = some '0' ∧ whole.length ≠ 1 then none
  let (fraction, rest) ← fraction? rest
  let (power, rest) ← power? rest
  pure (⟨negative, whole, fraction, power⟩, rest)

/-! ## Examples -/

/-- Zero with a sign is a double. -/
example : (scan ['-', '0']).map (fun n => n.1.number?) = some (some (.double true .zero)) := by
  decide +kernel

/-- The last integer. -/
example : (scan "18446744073709551615".toList).map (fun n => n.1.integer?) =
    some (some 18446744073709551615) := by
  decide +kernel

/-- The last digit counts as a factor of ten. -/
example : (scan "18446744073709551616".toList).map (fun n => n.1.scientific) =
    some (1844674407370955161, 1) := by
  decide +kernel

/-- No double is that large. -/
example : (scan "1e309".toList).map (fun n => n.1.number?) = some none := by decide +kernel

/-- Digits do not start with a zero. -/
example : scan "01".toList = none := by decide +kernel

end Numeral

end Timeline.Json
