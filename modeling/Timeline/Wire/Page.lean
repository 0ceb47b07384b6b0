import Timeline.Page
import Timeline.Wire.Entry

/-!
# Pages and requests on the wire

The two marks of a page may be absent where they do not hold, and the mark of the newest page has
a second name under which it is read too.
-/

namespace Timeline

open Json (Doc)

@[reducible]
def Page.layout : Layout Page where
  fields := [.required "entries" (List Entry), .required "chunk_number" Nat,
    .optional "is_oldest" false,
    { Field.optional "is_newest" false with aliases := ["is_latest"] }]
  toRow p := (p.entries, p.number, p.isOldest, p.isNewest, ())
  ofRow := fun (entries, number, isOldest, isNewest, ()) => ⟨number, entries, isOldest, isNewest⟩

instance : Wire Page := Page.layout.wire

def Direction.names : List (String × Direction) := [("older", .older), ("newer", .newer)]

instance : Wire Direction where
  toJson
    | .older => .string "older"
    | .newer => .string "newer"
  decode _ doc := Wire.decodeName Direction.names doc

namespace Anchor

/-- What an anchor is given by. -/
inductive Kind
  | message
  | number
  deriving DecidableEq, Repr

def Kind.names : List (String × Kind) := [("message_id", .message), ("number", .number)]

/-- A name alone is no anchor, since its content is missing. -/
def decode : Decoder Anchor
  | room, .object members closed =>
    Wire.decodeSole Kind.names
      (fun kind doc =>
        match kind with
        | .message => (Wire.decode (room - 1) doc).map .message
        | .number => (Wire.decode (room - 1) doc).map .number)
      members closed
  | _, .string (some name) => do
    let _ ← Wire.choose Kind.names name
    .error .invalidType
  | _, _ => .error .malformed

def toJson : Anchor → Json
  | .message id => .object [("message_id", .string id)]
  | .number n => .object [("number", .nat n)]

instance : Wire Anchor := ⟨toJson, decode⟩

end Anchor

@[reducible]
def PageRequest.layout : Layout PageRequest where
  fields := [.required "anchor" Anchor, .required "direction" Direction]
  toRow r := (r.anchor, r.direction, ())
  ofRow := fun (anchor, direction, ()) => ⟨anchor, direction⟩

instance : Wire PageRequest := PageRequest.layout.wire

end Timeline
