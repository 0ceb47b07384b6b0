import Timeline.Binary64.Shortest
import Timeline.Table

/-!
# JSON values and their text

A number is an integer or a double. The members of an object are kept in the order in which they
are written; a value read from a text has them in order of their keys, each key once.

The text of a value has no blanks. A string escapes the quote, the backslash and the characters
below U+0020, and nothing else. A double is written with the fewest digits that read back, with a
signed power of ten from `1e+16` upwards and below `0.00001`, and with `.0` where it would look
like an integer.
-/

namespace Timeline

/-- A JSON number. -/
inductive Json.Number
  | int (value : Int)
  | double (negative : Bool) (magnitude : Binary64)
  deriving DecidableEq, Repr

/-- A JSON value. -/
inductive Json
  | null
  | bool (value : Bool)
  | number (value : Json.Number)
  | string (value : String)
  | array (items : List Json)
  | object (members : List (String × Json))
  deriving Repr, Inhabited

namespace Json

def nat (n : Nat) : Json := .number (.int n)

/-! ## Strings -/

namespace Quoted

/-- The hexadecimal digit of a number below 16, in lower case. -/
def hexDigit (n : Nat) : Char := Nat.digitChar n

/-- A character as it stands between the quotes. -/
def escape (c : Char) : List Char :=
  match c with
  | '"' => ['\\', '"']
  | '\\' => ['\\', '\\']
  | '\x08' => ['\\', 'b']
  | '\x0c' => ['\\', 'f']
  | '\n' => ['\\', 'n']
  | '\r' => ['\\', 'r']
  | '\t' => ['\\', 't']
  | c =>
    if c < ' ' then ['\\', 'u', '0', '0', hexDigit (c.toNat / 16), hexDigit (c.toNat % 16)]
    else [c]

def encode (cs : List Char) : List Char := cs.flatMap escape

end Quoted

def quoted (s : String) : List Char := '"' :: Quoted.encode s.toList ++ ['"']

/-! ## Numbers -/

/-- The decimal point stands within sixteen digits, and at most four zeros follow it. Else the
power of ten has its sign. -/
def doubleStyle : DecimalStyle := ⟨-5, 16, true⟩

def Number.render : Number → List Char
  | .int z => DecimalStyle.integer z
  | .double negative magnitude =>
    (if negative then ['-'] else []) ++ doubleStyle.render magnitude.shortest

example : doubleStyle.render ⟨1, 15⟩ = "1000000000000000.0".toList := by decide +kernel

example : doubleStyle.render ⟨1, 16⟩ = "1e+16".toList := by decide +kernel

example : doubleStyle.render ⟨1, -5⟩ = "0.00001".toList := by decide +kernel

example : doubleStyle.render ⟨15, -7⟩ = "1.5e-6".toList := by decide +kernel

/-! ## Values -/

mutual

def render : Json → List Char
  | .null => ['n', 'u', 'l', 'l']
  | .bool true => ['t', 'r', 'u', 'e']
  | .bool false => ['f', 'a', 'l', 's', 'e']
  | .number n => n.render
  | .string s => quoted s
  | .array [] => ['[', ']']
  | .array (item :: rest) => '[' :: (item.render ++ renderItems rest)
  | .object [] => ['\x7b', '\x7d']
  | .object ((key, value) :: rest) =>
    '\x7b' :: (quoted key ++ ':' :: (value.render ++ renderMembers rest))

/-- The items after the first, and the bracket that closes the array. -/
def renderItems : List Json → List Char
  | [] => [']']
  | item :: rest => ',' :: (item.render ++ renderItems rest)

/-- The members after the first, and the brace that closes the object. -/
def renderMembers : List (String × Json) → List Char
  | [] => ['\x7d']
  | (key, value) :: rest =>
    ',' :: (quoted key ++ ':' :: (value.render ++ renderMembers rest))

end

def text (j : Json) : String := String.ofList j.render

end Json

end Timeline
