import Timeline.Entry
import Timeline.Wire.Layout

/-!
# Entries on the wire

An entry is written as a record of its own kind, with the kind as its first member. It is read in
two passes, since the kind says which fields the others are. The first pass looks at the whole
entry and finds the kind, which may stand anywhere in an object and is the first item of an array.
The second pass reads the other members or items as the record of that kind. All of them are
values by then, so an array with too many items has the wrong length and is not malformed.
-/

namespace Timeline

open Json (Doc)

/-! ## The records -/

@[reducible]
def Message.layout : Layout Message where
  fields := [.required "id" String, .required "sender_id" String, .required "created_at" Nat,
    .required "payload" Json]
  toRow m := (m.id, m.senderId, m.createdAt, m.payload, ())
  ofRow := fun (id, senderId, createdAt, payload, ()) => ⟨id, senderId, createdAt, payload⟩

instance : Wire Message := Message.layout.wire

@[reducible]
def DeviceStatus.layout : Layout DeviceStatus where
  fields := [.required "node_id" String, .required "user_id" String, .required "created_at" Nat,
    .required "active" Bool]
  toRow d := (d.deviceId, d.userId, d.createdAt, d.online, ())
  ofRow := fun (deviceId, userId, createdAt, online, ()) => ⟨deviceId, userId, createdAt, online⟩

instance : Wire DeviceStatus := DeviceStatus.layout.wire

@[reducible]
def Membership.layout : Layout Membership where
  fields := [.required "user_id" String, .required "created_at" Nat, .required "joined" Bool]
  toRow u := (u.userId, u.createdAt, u.joined, ())
  ofRow := fun (userId, createdAt, joined, ()) => ⟨userId, createdAt, joined⟩

instance : Wire Membership := Membership.layout.wire

namespace Entry

/-! ## The kind -/

inductive Kind
  | message
  | device
  | membership
  deriving DecidableEq, Repr

def kindKey : String := "kind"

def Kind.names : List (String × Kind) :=
  [("message", .message), ("node_status", .device), ("user_status", .membership)]

def Kind.ofDoc : Doc → Except DecodeError Kind
  | .string (some name) => Wire.choose Kind.names name
  | doc => .error (mismatch doc)

/-- Find the kind among members that are all values. -/
def findKind (room : Nat) :
    Option Kind → List (Option String × Doc) → Except DecodeError (Option Kind)
  | found, [] => .ok found
  | _, (none, _) :: _ => .error .malformed
  | found, (some key, doc) :: rest =>
    if key = kindKey then
      match found with
      | some _ => .error (.duplicateField kindKey)
      | none => do
        let kind ← Kind.ofDoc doc
        findKind room (some kind) rest
    else if (doc.value? room).isSome then findKind room found rest
    else .error .malformed

def withoutKind (members : List (Option String × Doc)) : List (Option String × Doc) :=
  members.filter fun (key, _) => key != some kindKey

/-! ## The entry -/

def ofMembers (room : Nat) (members : List (Option String × Doc)) : Kind → Except DecodeError Entry
  | .message => (Message.layout.ofMembers room members true).map .message
  | .device => (DeviceStatus.layout.ofMembers room members true).map .device
  | .membership => (Membership.layout.ofMembers room members true).map .membership

def ofItems (room : Nat) (items : List Doc) : Kind → Except DecodeError (Entry × List Doc)
  | .message => (Message.layout.ofItems room items true).map fun (m, rest) => (.message m, rest)
  | .device => (DeviceStatus.layout.ofItems room items true).map fun (d, rest) => (.device d, rest)
  | .membership =>
    (Membership.layout.ofItems room items true).map fun (u, rest) => (.membership u, rest)

def decode : Decoder Entry
  | room + 1, .object members closed => do
    let found ← findKind room none members
    match closed, found with
    | false, _ => .error .malformed
    | true, none => .error (.missingField kindKey)
    | true, some kind => ofMembers room (withoutKind members) kind
  | _ + 1, .array [] closed => .error (if closed then .missingField kindKey else .malformed)
  | room + 1, .array (first :: rest) closed => do
    let kind ← Kind.ofDoc first
    if closed && (Doc.itemValues? room rest).isSome then
      let (entry, extra) ← ofItems room rest kind
      if extra.isEmpty then pure entry else .error .invalidLength
    else .error .malformed
  | 0, .object _ _ => .error .malformed
  | 0, .array _ _ => .error .malformed
  | _, doc => .error (mismatch doc)

def toJson : Entry → Json
  | .message m => .object ((kindKey, .string "message") :: Message.layout.toMembers m)
  | .device d => .object ((kindKey, .string "node_status") :: DeviceStatus.layout.toMembers d)
  | .membership u => .object ((kindKey, .string "user_status") :: Membership.layout.toMembers u)

instance : Wire Entry := ⟨toJson, decode⟩

end Entry

end Timeline
