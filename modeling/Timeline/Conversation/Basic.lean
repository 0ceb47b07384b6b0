import Timeline.Failure
import Timeline.History.Alignment
import Timeline.Table
import Timeline.View

/-!
# Conversations

**The state** (`Conversation`). The live feed; the loaded history, once the reader has gone back
beyond the feed; the page that is awaited, if one is; and the devices that are online.

**Live mode.** Without history the conversation shows its feed, and older entries are asked for
from the feed's first message on. With history it shows that, and moves page by page.
-/

namespace Timeline

/-- A page that was asked for. -/
structure Awaited where
  direction : Direction
  /-- The number that the page must have. -/
  number : Option Nat
  deriving DecidableEq, Repr

structure Conversation where
  poolId : String
  bounds : Bounds
  feed : Feed
  history : Option History
  awaited : Option Awaited
  /-- The user of each device that is online. -/
  devices : Table String
  deriving DecidableEq, Repr

namespace Conversation

/-- A conversation without entries. -/
def empty (poolId : String) (bounds : Bounds) : Conversation :=
  ⟨poolId, bounds, .empty bounds.capacity, none, none, .empty⟩

/-- A page is awaited. -/
def isWaiting (c : Conversation) : Bool := c.awaited.isSome

/-! ## What it shows -/

def mode (c : Conversation) : Mode :=
  match c.history with
  | some _ => .history
  | none => .live

/-- The entries to show. -/
def shown (c : Conversation) : List Entry :=
  match c.history with
  | some h => h.entries
  | none => c.feed.entries

def canGoOlder (c : Conversation) : Bool :=
  match c.history with
  | some h => h.older?.isSome
  | none => c.feed.anchor?.isSome

def canGoNewer (c : Conversation) : Bool :=
  match c.history with
  | some h => !h.atPresent
  | none => false

/-- The newer part of the feed holds the end of history, so that going on would only bring what
the feed holds. -/
def feedTakesOver (c : Conversation) : Bool :=
  match c.history with
  | some h => h.overlapsFrom c.feed c.bounds.threshold
  | none => false

def view (c : Conversation) : View :=
  ⟨c.poolId, c.mode, c.shown, c.canGoOlder, c.canGoNewer⟩

/-- Return to live mode and await nothing. -/
def leaveHistory (c : Conversation) : Conversation := { c with history := none, awaited := none }

end Conversation

end Timeline
