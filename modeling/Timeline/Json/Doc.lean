import Timeline.Json.Numeral

/-!
# Texts as far as they can be read

A text that should be JSON may be broken at some point, and what was written before that point
still counts: the first problem in the order of the text is the one to report. So reading never
fails. It yields a `Doc`, which has a value's shape and keeps every fault where it was met: a
value that cannot be read, an array or object that breaks off, a number out of range, a string
with half of a surrogate pair. What wants a value of some shape then walks over the `Doc` in order
and stops at the first fault or mismatch.

`Doc.value?` takes a faultless `Doc` to its value, and `toDoc` is the faultless `Doc` of a value.
-/

namespace Timeline.Json

/-- A text as far as it can be read. -/
inductive Doc
  /-- No value can be read here. -/
  | broken
  | null
  | bool (value : Bool)
  /-- A numeral out of range has no number. -/
  | number (value : Option Number)
  /-- A string with half of a surrogate pair has no text. -/
  | string (value : Option String)
  /-- An array that breaks off is not closed. -/
  | array (items : List Doc) (closed : Bool)
  /-- Keys and their values. A key with half of a surrogate pair has no text, and an object that
  breaks off, as it does at a key that is no string, is not closed. -/
  | object (members : List (Option String × Doc)) (closed : Bool)
  deriving Repr, Inhabited

namespace Doc

/-- The text of a whole value can be read to its end, whatever it stands for. -/
def isWhole : Doc → Bool
  | .broken => false
  | .array _ closed => closed
  | .object _ closed => closed
  | _ => true

/-- How deep arrays and objects may be nested. -/
def depthLimit : Nat := 127

mutual

/-- The value of a `Doc` without faults that is nested at most `room` deep. -/
def value? : Nat → Doc → Option Json
  | _, .broken => none
  | _, .null => some .null
  | _, .bool b => some (.bool b)
  | _, .number n => n.map .number
  | _, .string s => s.map .string
  | 0, .array _ _ => none
  | room + 1, .array items closed =>
    if closed then (itemValues? room items).map .array else none
  | 0, .object _ _ => none
  | room + 1, .object members closed =>
    if closed then (memberValues? room members).map fun pairs => .object (Table.ofList pairs).pairs
    else none

def itemValues? : Nat → List Doc → Option (List Json)
  | _, [] => some []
  | room, item :: rest => do
    let value ← value? room item
    let values ← itemValues? room rest
    pure (value :: values)

def memberValues? : Nat → List (Option String × Doc) → Option (List (String × Json))
  | _, [] => some []
  | room, (key, item) :: rest => do
    let key ← key
    let value ← value? room item
    let values ← memberValues? room rest
    pure ((key, value) :: values)

end

end Doc

mutual

/-- The faultless `Doc` of a value. -/
def toDoc : Json → Doc
  | .null => .null
  | .bool b => .bool b
  | .number n => .number (some n)
  | .string s => .string (some s)
  | .array items => .array (itemDocs items) true
  | .object members => .object (memberDocs members) true

def itemDocs : List Json → List Doc
  | [] => []
  | item :: rest => item.toDoc :: itemDocs rest

def memberDocs : List (String × Json) → List (Option String × Doc)
  | [] => []
  | (key, value) :: rest => (some key, value.toDoc) :: memberDocs rest

end

end Timeline.Json
