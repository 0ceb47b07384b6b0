import Timeline.Bounds

/-!
# Failures

Every operation either takes effect as a whole or leaves the conversation as it was. The two
failures about a page that does not fit are the exception: the loaded history can no longer be
trusted, and it is dropped.
-/

namespace Timeline

/-- Why an operation had no effect. -/
inductive Failure
  /-- History cannot be joined to a feed without a message. -/
  | nothingToAnchor
  /-- The beginning of the conversation is loaded. -/
  | noOlderPage
  /-- Storage gave the reason instead of a page. -/
  | storage (reason : String)
  | noHistory
  /-- The end of history is loaded, and the feed does not cover it. -/
  | atPresent
  | alreadyWaiting
  | notWaiting
  | wrongPage (expected actual : Nat)
  | emptyPage (number : Nat)
  | bounds (reason : BoundsError)
  | unknownPool (id : String)
  deriving DecidableEq, Repr

namespace Failure

def message : Failure → String
  | .nothingToAnchor => "no message in the live feed to anchor history from"
  | .noOlderPage => "no older history available"
  | .storage _ => "chunk fetch failed"
  | .noHistory => "no history window is active"
  | .atPresent => "history window already reaches the present"
  | .alreadyWaiting => "a pagination request is already in flight"
  | .notWaiting => "no pagination request is pending"
  | .wrongPage expected actual =>
    "expected chunk " ++ toString expected ++ ", got chunk " ++ toString actual
  | .emptyPage number => "chunk " ++ toString number ++ " is empty"
  | .bounds reason => "invalid feed configuration: " ++ reason.message
  | .unknownPool id => "unknown pool: " ++ id

/-- The loaded history is dropped with this failure. -/
def dropsHistory : Failure → Bool
  | .wrongPage _ _ => true
  | .emptyPage _ => true
  | _ => false

/-- The reason that storage gave. -/
def reason? : Failure → Option String
  | .storage reason => some reason
  | _ => none

end Failure

end Timeline
