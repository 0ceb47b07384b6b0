import Timeline.Conversation.Delivery

/-!
# Pools

Every conversation belongs to a pool and is found by the pool's id. All conversations have the
same bounds and nothing else in common.
-/

namespace Timeline

/-- The conversations of all pools. -/
structure Pools where
  bounds : Bounds
  table : Table Conversation
  deriving DecidableEq, Repr

namespace Pools

/-- No pools yet, with the default bounds. -/
instance : Inhabited Pools := ⟨⟨default, .empty⟩⟩

/-- No pools yet, with usable bounds. -/
def create (bounds : Bounds) : Except Failure Pools :=
  match bounds.check with
  | .error reason => .error (.bounds reason)
  | .ok () => .ok ⟨bounds, .empty⟩

def get? (ps : Pools) (poolId : String) : Option Conversation := ps.table.get? poolId

/-- The ids of all pools, by code point. -/
def ids (ps : Pools) : List String := ps.table.keys

def size (ps : Pools) : Nat := ps.table.size

/-- Put a conversation in the place of the one that its pool had. -/
def put (ps : Pools) (poolId : String) (c : Conversation) : Pools :=
  { ps with table := ps.table.insert poolId c }

/-- The conversation of a pool; a new pool gets an empty one. -/
def enter (ps : Pools) (poolId : String) : Pools × Conversation :=
  match ps.get? poolId with
  | some c => (ps, c)
  | none =>
    let c := Conversation.empty poolId ps.bounds
    (ps.put poolId c, c)

/-- Start the conversation of a pool again from the given entries. -/
def restart (ps : Pools) (poolId : String) (entries : List Entry) : Pools × Conversation :=
  let (ps, c) := ps.enter poolId
  let c := c.restart entries
  (ps.put poolId c, c)

/-- Change the conversation of a pool that exists. -/
def update {α : Type} (ps : Pools) (poolId : String) (change : Conversation → Conversation × α) :
    Pools × Except Failure α :=
  match ps.get? poolId with
  | none => (ps, .error (.unknownPool poolId))
  | some c =>
    let (c, result) := change c
    (ps.put poolId c, .ok result)

/-- Empty the conversation of a pool, which goes on to exist. -/
def clear (ps : Pools) (poolId : String) : Pools × Except Failure Unit :=
  ps.update poolId fun c => (c.clear, ())

/-- Take a pool out, and hand back its conversation. -/
def remove (ps : Pools) (poolId : String) : Pools × Option Conversation :=
  ({ ps with table := ps.table.erase poolId }, ps.get? poolId)

end Pools

end Timeline
