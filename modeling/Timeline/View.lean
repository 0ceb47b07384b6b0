import Timeline.Entry

/-!
# Views

A view is what a conversation shows at one moment: the live feed or the loaded history, and
whether more can be asked for at either end.
-/

namespace Timeline

/-- The sequence that a conversation shows. -/
inductive Mode
  | live
  | history
  deriving DecidableEq, Repr

structure View where
  poolId : String
  mode : Mode
  entries : List Entry
  canGoOlder : Bool
  /-- Never in live mode. -/
  canGoNewer : Bool
  deriving DecidableEq, Repr

/-- The id of the newest message shown. -/
def View.lastMessageId? (v : View) : Option String := Timeline.lastMessageId? v.entries

end Timeline
