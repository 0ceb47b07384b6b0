import Timeline.Wire.Basic

/-!
# Records on the wire

The layout of a record lists its fields in the order in which they are written. A record is
written as an object. It is read from an object with the fields in any order and with other
members among them, or from an array of the fields in order.

In an object the members are taken one by one: one that is no field is passed over, a second one
for a field is refused, and any other one must have the shape of its field. At the end the first
field that is still without a value is missing, unless it may be absent. In an array only the
last fields may be absent.
-/

namespace Timeline

open Json (Doc)

/-- A field of a record. -/
structure Field where
  name : String
  /-- Other names under which the field is read. -/
  aliases : List String
  type : Type
  wire : Wire type
  /-- The value of the field where it is left out, if it may be. -/
  absent : Option type
  /-- Values that are left out. -/
  isHidden : type → Bool

namespace Field

/-- A field that must be there. -/
@[reducible]
def required (name : String) (α : Type) [wire : Wire α] : Field :=
  ⟨name, [], α, wire, none, fun _ => false⟩

/-- A field with a value that it has where it is left out. -/
@[reducible]
def optional (name : String) {α : Type} [wire : Wire α] (absent : α) : Field :=
  ⟨name, [], α, wire, some absent, fun _ => false⟩

def answersTo (f : Field) (key : String) : Bool := key == f.name || f.aliases.contains key

end Field

/-- The values of all fields. -/
@[reducible]
def Row : List Field → Type
  | [] => Unit
  | f :: fields => f.type × Row fields

/-- The values of the fields met so far. -/
@[reducible]
def Slots : List Field → Type
  | [] => Unit
  | f :: fields => Option f.type × Slots fields

namespace Slots

def empty : (fields : List Field) → Slots fields
  | [] => ()
  | _ :: fields => (none, empty fields)

/-- Read a value into the slot of the field that answers to `key`, if there is such a field. -/
def fill (room : Nat) (key : String) (doc : Doc) :
    (fields : List Field) → Slots fields → Option (Except DecodeError (Slots fields))
  | [], _ => none
  | f :: fields, (slot, slots) =>
    if f.answersTo key then
      match slot with
      | some _ => some (.error (.duplicateField f.name))
      | none => some ((f.wire.decode room doc).map fun x => (some x, slots))
    else (fill room key doc fields slots).map fun result => result.map fun slots => (slot, slots)

/-- Take the members of an object in order. -/
def gather (room : Nat) (fields : List Field) (slots : Slots fields) :
    List (Option String × Doc) → Except DecodeError (Slots fields)
  | [] => .ok slots
  | (none, _) :: _ => .error .malformed
  | (some key, doc) :: rest =>
    match fill room key doc fields slots with
    | some (.ok slots) => gather room fields slots rest
    | some (.error e) => .error e
    | none => if doc.isWhole then gather room fields slots rest else .error .malformed

/-- The values of all fields, unless one is missing. -/
def finish : (fields : List Field) → Slots fields → Except DecodeError (Row fields)
  | [], _ => .ok ()
  | f :: fields, (slot, slots) =>
    match slot.or f.absent with
    | none => .error (.missingField f.name)
    | some x => (finish fields slots).map fun row => (x, row)

end Slots

namespace Row

/-- Read the values of the fields from an object. -/
def ofMembers (room : Nat) (fields : List Field) (members : List (Option String × Doc))
    (closed : Bool) : Except DecodeError (Row fields) := do
  let slots ← Slots.gather room fields (.empty fields) members
  if closed then slots.finish fields else .error .malformed

/-- Read the values of the fields from an array, and give back the items left over. -/
def ofItems (room : Nat) (closed : Bool) :
    (fields : List Field) → List Doc → Except DecodeError (Row fields × List Doc)
  | [], items => .ok ((), items)
  | f :: fields, item :: items => do
    let x ← f.wire.decode room item
    let (row, rest) ← ofItems room closed fields items
    pure ((x, row), rest)
  | f :: fields, [] =>
    if closed then
      match f.absent with
      | none => .error .invalidLength
      | some x => do
        let (row, rest) ← ofItems room closed fields []
        pure ((x, row), rest)
    else .error .malformed

/-- The members of an object with the values of the fields. -/
def toMembers : (fields : List Field) → Row fields → List (String × Json)
  | [], _ => []
  | f :: fields, (x, row) =>
    if f.isHidden x then toMembers fields row
    else (f.name, f.wire.toJson x) :: toMembers fields row

end Row

/-- How a type is written as a record. -/
structure Layout (α : Type) where
  fields : List Field
  toRow : α → Row fields
  ofRow : Row fields → α

namespace Layout

variable {α : Type}

def toMembers (l : Layout α) (x : α) : List (String × Json) := (l.toRow x).toMembers l.fields

def ofMembers (l : Layout α) (room : Nat) (members : List (Option String × Doc))
    (closed : Bool) : Except DecodeError α :=
  (Row.ofMembers room l.fields members closed).map l.ofRow

def ofItems (l : Layout α) (room : Nat) (items : List Doc) (closed : Bool) :
    Except DecodeError (α × List Doc) :=
  (Row.ofItems room closed l.fields items).map fun (row, rest) => (l.ofRow row, rest)

/-- Read a record. An array with more items than fields is malformed. -/
def decode (l : Layout α) : Decoder α
  | room + 1, .object members closed => l.ofMembers room members closed
  | room + 1, .array items closed => do
    let (x, rest) ← l.ofItems room items closed
    if rest.isEmpty && closed then pure x else .error .malformed
  | 0, .object _ _ => .error .malformed
  | 0, .array _ _ => .error .malformed
  | _, doc => .error (mismatch doc)

/-- The written form of a record. -/
@[reducible]
def wire (l : Layout α) : Wire α := ⟨fun x => .object (l.toMembers x), l.decode⟩

end Layout

end Timeline
