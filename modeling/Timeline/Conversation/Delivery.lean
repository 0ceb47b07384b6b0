import Timeline.Conversation.Basic

/-!
# Live delivery

Delivered entries go to the feed. They touch neither the loaded history nor the awaited page;
only a new start of the feed drops both. Notices about users and devices are made on the spot
and carry the time that the caller's clock shows.
-/

namespace Timeline.Conversation

/-- Deliver an entry. -/
def push (c : Conversation) (e : Entry) : Conversation := { c with feed := c.feed.push e }

/-- Start again from the given entries. -/
def restart (c : Conversation) (entries : List Entry) : Conversation :=
  { c with feed := c.feed.replace entries }.leaveHistory

/-- Forget entries, history and devices. -/
def clear (c : Conversation) : Conversation :=
  { c with feed := c.feed.clear, devices := .empty }.leaveHistory

/-- A conversation with usable bounds and its first entries. -/
def create (poolId : String) (bounds : Bounds) (entries : List Entry) :
    Except Failure Conversation :=
  match bounds.check with
  | .error reason => .error (.bounds reason)
  | .ok () => .ok ((empty poolId bounds).restart entries)

/-! ## Users and devices -/

def memberJoined (c : Conversation) (userId : String) (now : Nat) : Conversation :=
  c.push (.membership ⟨userId, now, true⟩)

def memberLeft (c : Conversation) (userId : String) (now : Nat) : Conversation :=
  c.push (.membership ⟨userId, now, false⟩)

def deviceOnline (c : Conversation) (deviceId userId : String) (now : Nat) : Conversation :=
  { c with devices := c.devices.insert deviceId userId }.push
    (.device ⟨deviceId, userId, now, true⟩)

/-- A device that was not online leaves no notice; the second part tells whether it was. -/
def deviceOffline (c : Conversation) (deviceId : String) (now : Nat) : Conversation × Bool :=
  match c.devices.get? deviceId with
  | some userId =>
    ({ c with devices := c.devices.erase deviceId }.push (.device ⟨deviceId, userId, now, false⟩),
      true)
  | none => (c, false)

/-- Take over the devices that are online, without a notice. -/
def setDevices (c : Conversation) (devices : List (String × String)) : Conversation :=
  { c with devices := .ofList devices }

/-- The user of a device that is online. -/
def deviceUser? (c : Conversation) (deviceId : String) : Option String :=
  c.devices.get? deviceId

/-! ## What delivery leaves alone -/

@[simp] theorem history_push (c : Conversation) (e : Entry) : (c.push e).history = c.history := rfl

@[simp] theorem awaited_push (c : Conversation) (e : Entry) : (c.push e).awaited = c.awaited := rfl

@[simp] theorem bounds_push (c : Conversation) (e : Entry) : (c.push e).bounds = c.bounds := rfl

end Timeline.Conversation
