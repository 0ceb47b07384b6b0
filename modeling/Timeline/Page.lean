import Timeline.Entry

/-!
# Pages of history

Storage keeps the whole conversation cut into numbered pages. Page 0 holds its oldest entries and
each newer page has the next number. A request names a page, by its number or by a message that
stands in it, and the direction in which the reader moves. All page numbers are taken to stay within
64 bits.
-/

namespace Timeline

/-- One page of history. -/
structure Page where
  number : Nat
  entries : List Entry
  /-- No older page is in storage. -/
  isOldest : Bool
  /-- The live stream goes on where this page ends. -/
  isNewest : Bool
  deriving DecidableEq, Repr

namespace Page

/-- The page with number 0 is the oldest. -/
def numbered (number : Nat) (entries : List Entry) : Page :=
  ⟨number, entries, number == 0, false⟩

def asNewest (p : Page) : Page := { p with isNewest := true }

def asOldest (p : Page) : Page := { p with isOldest := true }

def size (p : Page) : Nat := p.entries.length

def isEmpty (p : Page) : Bool := p.entries.isEmpty

/-- The conversation begins with this page. -/
def isBeginning (p : Page) : Bool := p.isOldest || p.number == 0

end Page

/-- The way in which a reader moves through history. -/
inductive Direction
  | older
  | newer
  deriving DecidableEq, Repr

/-- Page numbers grow in this direction. -/
def Direction.ascends : Direction → Bool
  | .older => false
  | .newer => true

/-- What names a page. -/
inductive Anchor
  /-- The page in which this message stands. -/
  | message (id : String)
  | number (n : Nat)
  deriving DecidableEq, Repr

/-- A question for a page, to be answered from storage. -/
structure PageRequest where
  anchor : Anchor
  direction : Direction
  deriving DecidableEq, Repr

/-- The number that the answer must have, if the request names one. -/
def PageRequest.number? (r : PageRequest) : Option Nat :=
  match r.anchor with
  | .message _ => none
  | .number n => some n

end Timeline
