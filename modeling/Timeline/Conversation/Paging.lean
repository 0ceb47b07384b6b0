import Timeline.Conversation.Delivery

/-!
# Paging

**Asking.** `askOlder` and `askNewer` hand out a request and await its page. At most one page is
awaited. In live mode the request names the feed's first message, otherwise the page next to the
loaded history.

**Receiving.** `receive` takes the reply. A page that fits is added to the history, or starts it;
where the history then ends at the present it is aligned with the feed. After a failed fetch the
same page can be asked for again. A page that does not fit takes the history with it.

Each operation that can fail returns the conversation after it together with its result, so that
what a failure leaves behind can be said too.
-/

namespace Timeline

/-- The page that answers a request, or the reason why there is none. -/
abbrev Reply := Except String Page

/-- What asking for a newer page led to. -/
inductive Forward
  | request (r : PageRequest)
  /-- The feed takes over from the history, which was dropped. -/
  | backToLive
  deriving DecidableEq, Repr

/-- Why a page cannot be the awaited one. -/
def Awaited.misfit? (a : Awaited) (p : Page) : Option Failure :=
  match a.number with
  | some n =>
    if p.number ≠ n then some (.wrongPage n p.number)
    else if p.isEmpty then some (.emptyPage p.number)
    else none
  | none => if p.isEmpty then some (.emptyPage p.number) else none

namespace Conversation

/-! ## Asking -/

/-- Ask for the page before the history, or in live mode for the page of the feed's first
message. -/
def askOlder (c : Conversation) : Conversation × Except Failure PageRequest :=
  if c.isWaiting then (c, .error .alreadyWaiting)
  else
    match c.history with
    | none =>
      match c.feed.anchor? with
      | none => (c, .error .nothingToAnchor)
      | some (_, id) => ({ c with awaited := some ⟨.older, none⟩ }, .ok ⟨.message id, .older⟩)
    | some h =>
      match h.older? with
      | none => (c, .error .noOlderPage)
      | some n => ({ c with awaited := some ⟨.older, some n⟩ }, .ok ⟨.number n, .older⟩)

/-- Ask for the page after the history. At the present there is none, and the history is dropped
if the feed takes over from it. -/
def askNewer (c : Conversation) : Conversation × Except Failure Forward :=
  if c.isWaiting then (c, .error .alreadyWaiting)
  else
    match c.history with
    | none => (c, .error .noHistory)
    | some h =>
      if h.atPresent then
        if c.feedTakesOver then (c.leaveHistory, .ok .backToLive) else (c, .error .atPresent)
      else
        ({ c with awaited := some ⟨.newer, some h.newer⟩ },
          .ok (.request ⟨.number h.newer, .newer⟩))

/-! ## Receiving -/

/-- Align a history that ends at the present with the feed. -/
def alignedAtPresent (c : Conversation) (h : History) : History :=
  if h.atPresent then (h.align c.feed c.bounds.capacity).1 else h

/-- Add a page that fits, and tell whether more history remains in that direction. -/
def merge (c : Conversation) (direction : Direction) (p : Page) :
    Conversation × Except Failure Bool :=
  match c.history, direction with
  | some h, .older =>
    let h := h.pushFront p c.bounds.capacity
    ({ c with history := some h }, .ok h.older?.isSome)
  | some h, .newer =>
    let h := c.alignedAtPresent (h.pushBack p c.bounds.capacity)
    ({ c with history := some h }, .ok !h.atPresent)
  | none, .older =>
    let h := c.alignedAtPresent (.ofPage p)
    ({ c with history := some h }, .ok h.older?.isSome)
  | none, .newer => (c, .error .noHistory)

/-- Await nothing any more. -/
def giveUp (c : Conversation) : Conversation := { c with awaited := none }

/-- Take the reply to the awaited page. -/
def receive (c : Conversation) (reply : Reply) : Conversation × Except Failure Bool :=
  match c.awaited with
  | none => (c, .error .notWaiting)
  | some a =>
    match reply with
    | .error reason => (c.giveUp, .error (.storage reason))
    | .ok p =>
      match a.misfit? p with
      | some failure => (c.leaveHistory, .error failure)
      | none => c.giveUp.merge a.direction p

/-- Return to live mode, and tell whether history can be asked for from there. -/
def returnToLive (c : Conversation) : Conversation × Bool :=
  (c.leaveHistory, c.feed.anchor?.isSome)

/-- Align the history, if there is one, with the feed as it is now. -/
def realign (c : Conversation) : Conversation × Option Alignment :=
  match c.history with
  | none => (c, none)
  | some h =>
    let (h, outcome) := h.align c.feed c.bounds.capacity
    ({ c with history := some h }, some outcome)

/-! ## Asking and receiving in one step -/

/-- What a source of pages was asked, and what came of it. -/
structure Fetched where
  asked : Option PageRequest
  result : Except Failure Bool

/-- Ask `source` for an older page and add it. -/
def fetchOlder (c : Conversation) (source : PageRequest → Reply) : Conversation × Fetched :=
  match c.askOlder with
  | (c, .error failure) => (c, ⟨none, .error failure⟩)
  | (c, .ok request) =>
    let (c, result) := c.receive (source request)
    (c, ⟨some request, result⟩)

/-- Ask `source` for a newer page and add it, or return to live mode. -/
def fetchNewer (c : Conversation) (source : PageRequest → Reply) : Conversation × Fetched :=
  match c.askNewer with
  | (c, .error failure) => (c, ⟨none, .error failure⟩)
  | (c, .ok .backToLive) => (c, ⟨none, .ok false⟩)
  | (c, .ok (.request request)) =>
    let (c, result) := c.receive (source request)
    (c, ⟨some request, result⟩)

end Conversation

end Timeline
