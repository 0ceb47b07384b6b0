import Timeline.Json.Equality

/-!
# Entries of a conversation

A conversation is a sequence of entries: messages that its members send, and notices that a
device went online or offline or that a user joined or left. Only a message has an id, so only a
message can mark the same place in two copies of the sequence. The engine never looks into the
body of a message.

Timestamps count milliseconds from the start of 1970.
-/

namespace Timeline

structure Message where
  id : String
  senderId : String
  createdAt : Nat
  payload : Json
  deriving DecidableEq, Repr

/-- A device of some user went online or offline. -/
structure DeviceStatus where
  deviceId : String
  userId : String
  createdAt : Nat
  online : Bool
  deriving DecidableEq, Repr

/-- A user joined the conversation or left it. -/
structure Membership where
  userId : String
  createdAt : Nat
  joined : Bool
  deriving DecidableEq, Repr

inductive Entry
  | message (m : Message)
  | device (d : DeviceStatus)
  | membership (u : Membership)
  deriving DecidableEq, Repr

namespace Entry

/-- The id of a message. -/
def id? : Entry → Option String
  | .message m => some m.id
  | _ => none

def isMessage : Entry → Bool
  | .message _ => true
  | _ => false

def message? : Entry → Option Message
  | .message m => some m
  | _ => none

def createdAt : Entry → Nat
  | .message m => m.createdAt
  | .device d => d.createdAt
  | .membership u => u.createdAt

/-- The same entry with another timestamp. -/
def stamped : Entry → Nat → Entry
  | .message m, time => .message { m with createdAt := time }
  | .device d, time => .device { d with createdAt := time }
  | .membership u, time => .membership { u with createdAt := time }

@[simp] theorem isSome_id? (e : Entry) : e.id?.isSome = e.isMessage := by
  cases e <;> rfl

@[simp] theorem createdAt_stamped (e : Entry) (time : Nat) : (e.stamped time).createdAt = time := by
  cases e <;> rfl

end Entry

/-- The id of the last message of a sequence. -/
def lastMessageId? (entries : List Entry) : Option String :=
  entries.reverse.findSome? Entry.id?

end Timeline
