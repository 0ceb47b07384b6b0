import Timeline.Json.Reader

/-!
# Values on the wire

A type on the wire is written as JSON and read back from it. A text that has no value of the type
is refused with the first problem in its order: a fault of the text itself, or a `Doc` that does
not have the wanted shape. What is nested too deeply is a fault of the text, so every reader is
told how much nesting is left.
-/

namespace Timeline

open Json (Doc)

/-- Why a text has no value of the wanted type. -/
inductive DecodeError
  /-- The text is not JSON, or a number or string in it stands for nothing. -/
  | malformed
  | missingField (name : String)
  | duplicateField (name : String)
  | unknownVariant (name : String) (known : List String)
  | invalidType
  /-- A negative number where a count is wanted. -/
  | invalidValue
  /-- An array with too few or too many items. -/
  | invalidLength
  deriving DecidableEq, Repr

namespace DecodeError

def ticked (name : String) : String := "`" ++ name ++ "`"

/-- The names that could have stood in a place. -/
def expected (known : List String) : String :=
  match known with
  | [a, b] => ticked a ++ " or " ++ ticked b
  | _ => "one of " ++ ", ".intercalate (known.map ticked)

def message : DecodeError → String
  | .malformed => "malformed text"
  | .missingField name => "missing field " ++ ticked name
  | .duplicateField name => "duplicate field " ++ ticked name
  | .unknownVariant name known =>
    "unknown variant " ++ ticked name ++ ", expected " ++ expected known
  | .invalidType => "invalid type"
  | .invalidValue => "invalid value"
  | .invalidLength => "invalid length"

end DecodeError

/-- Reads a `Doc` in which values may be nested to the given depth. -/
abbrev Decoder (α : Type) := Nat → Doc → Except DecodeError α

/-- The written form of a type. -/
class Wire (α : Type) where
  toJson : α → Json
  decode : Decoder α

/-- The error for a `Doc` of the wrong shape. Arrays and objects are refused at their bracket,
all else when it has been read. -/
def mismatch : Doc → DecodeError
  | .broken => .malformed
  | .number none => .malformed
  | .string none => .malformed
  | _ => .invalidType

namespace Wire

variable {α : Type} [Wire α]

def encode (x : α) : String := (toJson x).text

/-- Read a text that holds a value and nothing else. -/
def decodeText (text : String) : Except DecodeError α := do
  let (doc, ended) := Doc.read text
  let x ← decode Doc.depthLimit doc
  if ended then pure x else .error .malformed

/-! ## Simple values -/

instance : Wire String where
  toJson := .string
  decode
    | _, .string (some s) => .ok s
    | _, doc => .error (mismatch doc)

instance : Wire Bool where
  toJson := .bool
  decode
    | _, .bool b => .ok b
    | _, doc => .error (mismatch doc)

/-- A count is an integer that is not negative. -/
instance : Wire Nat where
  toJson := .nat
  decode
    | _, .number (some (.int z)) => if z < 0 then .error .invalidValue else .ok z.toNat
    | _, doc => .error (mismatch doc)

/-- Any value whatever. -/
instance : Wire Json where
  toJson := id
  decode room doc :=
    match doc.value? room with
    | some j => .ok j
    | none => .error .malformed

/-- An absent value is written as `null`. -/
instance : Wire (Option α) where
  toJson
    | none => .null
    | some x => toJson x
  decode
    | _, .null => .ok none
    | room, doc => (decode room doc).map some

def decodeItems (room : Nat) : List Doc → Except DecodeError (List α)
  | [] => .ok []
  | item :: rest => do
    let x ← decode room item
    let xs ← decodeItems room rest
    pure (x :: xs)

instance : Wire (List α) where
  toJson xs := .array (xs.map toJson)
  decode
    | room + 1, .array items closed => do
      let xs ← decodeItems room items
      if closed then pure xs else .error .malformed
    | 0, .array _ _ => .error .malformed
    | _, doc => .error (mismatch doc)

/-! ## Variants -/

/-- Find what a name stands for. -/
def choose {β : Type} (known : List (String × β)) (name : String) : Except DecodeError β :=
  match known.lookup name with
  | some x => .ok x
  | none => .error (.unknownVariant name (known.map Prod.fst))

/-- Read an object whose only key is the name of a variant, with its content. -/
def decodeSole {β γ : Type} (known : List (String × β)) (content : β → Doc → Except DecodeError γ)
    (members : List (Option String × Doc)) (closed : Bool) : Except DecodeError γ :=
  match members with
  | (some name, doc) :: rest => do
    let variant ← choose known name
    let x ← content variant doc
    if rest.isEmpty && closed then pure x else .error .malformed
  | _ => .error .malformed

/-- Read a value that is one of several names: the name, or an object with the name as its only
key and `null` as its content. -/
def decodeName {β : Type} (known : List (String × β)) : Doc → Except DecodeError β
  | .string (some name) => choose known name
  | .object members closed =>
    decodeSole known (fun x doc => match doc with | .null => .ok x | doc => .error (mismatch doc))
      members closed
  | _ => .error .malformed

end Wire

end Timeline
