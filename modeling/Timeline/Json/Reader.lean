import Timeline.Json.Doc
import Timeline.Json.Quoted

/-!
# Reading a text

Blanks may stand between the parts of a text and at its ends; they are the space, the tab, the
line feed and the carriage return. A value is read together with what follows it. Where the text
is broken nothing follows, and all arrays and objects around that point break off.

`Doc.read` reads a whole text. Its second part tells whether nothing but blanks follows the value.
-/

namespace Timeline.Json

def isBlank (c : Char) : Bool := c == ' ' || c == '\t' || c == '\n' || c == '\r'

def skipBlanks (cs : List Char) : List Char := cs.dropWhile isBlank

/-- What follows `word` at the front of a text. -/
def after? (word : List Char) (cs : List Char) : Option (List Char) :=
  match word, cs with
  | [], cs => some cs
  | _ :: _, [] => none
  | w :: word, c :: cs => if w = c then after? word cs else none

namespace Doc

/-- A value and what follows it, if it is whole. -/
abbrev Reading (α : Type) := α × Option (List Char)

def readWord (word : List Char) (doc : Doc) (cs : List Char) : Reading Doc :=
  match after? word cs with
  | some rest => (doc, some rest)
  | none => (.broken, none)

/-- Read a string after its opening quote. -/
def readString? (cs : List Char) : Option (Option String × List Char) :=
  (Quoted.pieces? cs).map fun (pieces, rest) => ((Quoted.join? pieces).map String.ofList, rest)

def readNumber (cs : List Char) : Reading Doc :=
  match Numeral.scan cs with
  | some (numeral, rest) => (.number numeral.number?, some rest)
  | none => (.broken, none)

mutual

/-- Read a value. Each level and each item takes one of the steps. -/
def readValue : Nat → List Char → Reading Doc
  | 0, _ => (.broken, none)
  | steps + 1, cs =>
    match skipBlanks cs with
    | [] => (.broken, none)
    | '"' :: rest =>
      match readString? rest with
      | some (s, rest) => (.string s, some rest)
      | none => (.broken, none)
    | '[' :: rest =>
      match skipBlanks rest with
      | ']' :: rest => (.array [] true, some rest)
      | rest =>
        let (items, rest) := readItems steps rest
        (.array items rest.isSome, rest)
    | '\x7b' :: rest =>
      match skipBlanks rest with
      | '\x7d' :: rest => (.object [] true, some rest)
      | rest =>
        let (members, rest) := readMembers steps rest
        (.object members rest.isSome, rest)
    | 'n' :: rest => readWord ['u', 'l', 'l'] .null rest
    | 't' :: rest => readWord ['r', 'u', 'e'] (.bool true) rest
    | 'f' :: rest => readWord ['a', 'l', 's', 'e'] (.bool false) rest
    | cs => readNumber cs

/-- Read the items of an array up to its bracket. -/
def readItems : Nat → List Char → Reading (List Doc)
  | 0, _ => ([], none)
  | steps + 1, cs =>
    match readValue steps cs with
    | (item, none) => ([item], none)
    | (item, some rest) =>
      match skipBlanks rest with
      | ']' :: rest => ([item], some rest)
      | ',' :: rest =>
        let (items, rest) := readItems steps rest
        (item :: items, rest)
      | _ => ([item], none)

/-- Read the members of an object up to its brace. A key without a value stands for a broken
one. -/
def readMembers : Nat → List Char → Reading (List (Option String × Doc))
  | 0, _ => ([], none)
  | steps + 1, cs =>
    match skipBlanks cs with
    | '"' :: rest =>
      match readString? rest with
      | none => ([], none)
      | some (key, rest) =>
        match skipBlanks rest with
        | ':' :: rest =>
          match readValue steps rest with
          | (value, none) => ([(key, value)], none)
          | (value, some rest) =>
            match skipBlanks rest with
            | '\x7d' :: rest => ([(key, value)], some rest)
            | ',' :: rest =>
              let (members, rest) := readMembers steps rest
              ((key, value) :: members, rest)
            | _ => ([(key, value)], none)
        | _ => ([(key, .broken)], none)
    | _ => ([], none)

end

/-- Read a text: its value as far as it can be read, and whether the text ends with it. No text
has more levels and items than twice its characters. -/
def read (text : String) : Doc × Bool :=
  let cs := text.toList
  match readValue (2 * cs.length + 1) cs with
  | (doc, some rest) => (doc, (skipBlanks rest).isEmpty)
  | (doc, none) => (doc, false)

end Doc

/-- The value that a text stands for, if it has no fault. -/
def read? (text : String) : Option Json :=
  match Doc.read text with
  | (doc, true) => doc.value? Doc.depthLimit
  | (_, false) => none

end Timeline.Json
