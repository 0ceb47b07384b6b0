import Timeline.Json.Basic

/-!
# Reading a quoted string

A string is read in two steps. `pieces?` splits the text up to the closing quote into characters
and escaped UTF-16 code units; this fails on what is no string at all. `join?` then pairs up the
surrogates among the code units, and fails if one stands alone.
-/

namespace Timeline.Json.Quoted

/-- A character of a string, or a code unit given by its number. -/
inductive Piece
  | char (c : Char)
  | unit (value : Nat)
  deriving DecidableEq, Repr

/-- The value of a hexadecimal digit in either case. -/
def hexValue? (c : Char) : Option Nat :=
  if '0' ≤ c ∧ c ≤ '9' then some (c.toNat - '0'.toNat)
  else if 'a' ≤ c ∧ c ≤ 'f' then some (c.toNat - 'a'.toNat + 10)
  else if 'A' ≤ c ∧ c ≤ 'F' then some (c.toNat - 'A'.toNat + 10)
  else none

/-- The code unit of four hexadecimal digits. -/
def unit? (a b c d : Char) : Option Nat := do
  pure (4096 * (← hexValue? a) + 256 * (← hexValue? b) + 16 * (← hexValue? c) + (← hexValue? d))

/-- The character that a backslash and a letter stand for. -/
def letterEscape? (c : Char) : Option Char :=
  match c with
  | '"' => some '"'
  | '\\' => some '\\'
  | '/' => some '/'
  | 'b' => some '\x08'
  | 'f' => some '\x0c'
  | 'n' => some '\n'
  | 'r' => some '\r'
  | 't' => some '\t'
  | _ => none

/-- Split a text after its opening quote, and give back what follows the closing one. -/
def pieces? : List Char → Option (List Piece × List Char)
  | [] => none
  | '"' :: rest => some ([], rest)
  | '\\' :: 'u' :: a :: b :: c :: d :: rest => do
    let value ← unit? a b c d
    let (pieces, rest) ← pieces? rest
    pure (.unit value :: pieces, rest)
  | '\\' :: c :: rest => do
    let c ← letterEscape? c
    let (pieces, rest) ← pieces? rest
    pure (.char c :: pieces, rest)
  | c :: rest =>
    if c < ' ' then none
    else do
      let (pieces, rest) ← pieces? rest
      pure (.char c :: pieces, rest)

/-! ## Surrogates -/

/-- The first unit of a pair. -/
def isHigh (unit : Nat) : Bool := 0xD800 ≤ unit && unit < 0xDC00

/-- The second unit of a pair. -/
def isLow (unit : Nat) : Bool := 0xDC00 ≤ unit && unit < 0xE000

def ofPair (high low : Nat) : Char :=
  Char.ofNat (0x10000 + 1024 * (high - 0xD800) + (low - 0xDC00))

def join? : List Piece → Option (List Char)
  | [] => some []
  | .char c :: rest => (join? rest).map (c :: ·)
  | .unit high :: .unit low :: rest =>
    if isHigh high then
      if isLow low then (join? rest).map (ofPair high low :: ·) else none
    else if isLow high then none
    else (join? (.unit low :: rest)).map (Char.ofNat high :: ·)
  | .unit unit :: rest =>
    if isHigh unit || isLow unit then none else (join? rest).map (Char.ofNat unit :: ·)

/-! ## Examples -/

example : pieces? "a\\u00e9\"x".toList = some ([.char 'a', .unit 0xe9], ['x']) := by decide +kernel

example : join? [.unit 0xd83d, .unit 0xde00] = some ['😀'] := by decide

example : join? [.unit 0xd83d, .char 'a'] = none := by decide

end Timeline.Json.Quoted
