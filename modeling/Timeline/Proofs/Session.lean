import Timeline.Archive
import Timeline.Proofs.Awaiting
import Timeline.Proofs.Retention

/-!
# A conversation and its surroundings

**The log.** Storage holds the first messages of a log, and their number grows. Live delivery
brings messages of the log in their order, and notices at any time.

**Sessions** (`Session`). A conversation together with what its surroundings did so far: how much
was stored, and what was delivered.

**Rules** (`Session.Obeys`). The surroundings keep to the log: what is delivered is a part of it,
and a page that answers a request was read from storage after the request was made.

Main statements: `Session.Follows.invariant`, what every step under a rule keeps holds after every
run under that rule; `Session.tracks_next`, the feed holds what is retained of the deliveries.
-/

namespace Timeline

open Conversation

/-! ## Sessions -/

/-- A conversation and what its surroundings did so far. -/
structure Session where
  conversation : Conversation
  /-- How many messages of the log are in storage. -/
  stored : Nat
  /-- How many of them were when the awaited page was asked for. -/
  storedAtAsk : Nat
  /-- The entries delivered since the feed last started again. -/
  delivered : List Entry
  /-- The entries delivered before that. -/
  earlier : List Entry
  deriving DecidableEq

/-- Storage grows, or something happens to the conversation. -/
inductive Event
  | store (count : Nat)
  | operate (op : Operation)

/-- Storage after the first `n` messages of the log were stored. -/
def Archive.ofLog (log : List Message) (size n : Nat) : Archive :=
  ⟨(log.take n).map .message, size, [], 0⟩

namespace Session

/-- Nothing is stored or delivered yet. The entries that a conversation is created with come as a
first `restart`. -/
def start (poolId : String) (bounds : Bounds) : Session := ⟨.empty poolId bounds, 0, 0, [], []⟩

/-- At least this much of the log was stored when a page is read that the conversation takes. -/
def readFrom (s : Session) : Nat :=
  if s.conversation.isWaiting then s.storedAtAsk else s.stored

theorem readFrom_of_not_isPaging {s : Session} (h : ¬s.conversation.isPaging = true) :
    s.readFrom = s.stored := by
  rw [isPaging, Bool.or_eq_true, not_or] at h
  rw [readFrom, if_neg h.2]

def next (s : Session) : Event → Session
  | .store count => { s with stored := s.stored + count }
  | .operate op =>
    { conversation := (s.conversation.apply op).1
      stored := s.stored
      storedAtAsk := s.readFrom
      delivered := (if startsAgain op then [] else s.delivered) ++ s.conversation.delivers op
      earlier := if startsAgain op then s.earlier ++ s.delivered else s.earlier }

def run (s : Session) (events : List Event) : Session := events.foldl next s

/-! ## Rules -/

/-- A page in this reply was read from storage when it held between `earliest` and `latest`
messages. -/
def ReadBetween (log : List Message) (size earliest latest : Nat) (reply : Reply) : Prop :=
  ∀ p, reply = .ok p →
    ∃ n ≤ latest, earliest ≤ n ∧ (Archive.ofLog log size n).page? p.number = some p

theorem readBetween_ok_iff {log : List Message} {size earliest latest : Nat} {p : Page} :
    ReadBetween log size earliest latest (.ok p) ↔
      ∃ n ≤ latest, earliest ≤ n ∧ (Archive.ofLog log size n).page? p.number = some p := by
  constructor
  · intro h
    exact h p rfl
  · intro h q hq
    obtain rfl := Except.ok.inj hq
    exact h

/-- Pages are read from storage after they were asked for. -/
def ReadsHonestly (log : List Message) (size : Nat) (s : Session) : Event → Prop
  | .operate (.receive reply) => s.conversation.isWaiting = true →
      ReadBetween log size s.storedAtAsk s.stored reply
  | .operate (.fetchOlder source) => ∀ r, ReadBetween log size s.stored s.stored (source r)
  | .operate (.fetchNewer source) => ∀ r, ReadBetween log size s.stored s.stored (source r)
  | _ => True

/-- No more is stored than the log, and what is delivered is a part of it. -/
def StaysWithin (log : List Message) (s : Session) (event : Event) : Prop :=
  (s.next event).stored ≤ log.length ∧ messages (s.next event).delivered <:+: log

instance (log : List Message) (s : Session) (event : Event) :
    Decidable (s.StaysWithin log event) :=
  inferInstanceAs (Decidable (_ ∧ _))

/-- Storage and delivery follow the log. -/
structure Obeys (log : List Message) (size : Nat) (s : Session) (event : Event) : Prop where
  within : s.StaysWithin log event
  reads : s.ReadsHonestly log size event

/-- Every event of a run keeps to a rule. -/
def Follows (rule : Session → Event → Prop) : Session → List Event → Prop
  | _, [] => True
  | s, event :: events => rule s event ∧ Follows rule (s.next event) events

instance decidableFollows {rule : Session → Event → Prop}
    [∀ s event, Decidable (rule s event)] :
    ∀ (s : Session) (events : List Event), Decidable (Follows rule s events)
  | _, [] => .isTrue trivial
  | s, event :: events =>
    have : Decidable (Follows rule (s.next event) events) := decidableFollows _ events
    inferInstanceAs (Decidable (rule s event ∧ Follows rule (s.next event) events))

theorem Follows.and {rule rule' : Session → Event → Prop} {s : Session} {events : List Event}
    (h : Follows rule s events) (h' : Follows rule' s events) :
    Follows (fun s event => rule s event ∧ rule' s event) s events := by
  induction events generalizing s with
  | nil => trivial
  | cons event events ih => exact ⟨⟨h.1, h'.1⟩, ih h.2 h'.2⟩

theorem Follows.mono {rule rule' : Session → Event → Prop}
    (hweaker : ∀ s event, rule s event → rule' s event) {s : Session} {events : List Event}
    (h : Follows rule s events) : Follows rule' s events := by
  induction events generalizing s with
  | nil => trivial
  | cons event events ih => exact ⟨hweaker s event h.1, ih h.2⟩

/-- What holds at the start and is kept under the rule holds after every run under the rule. -/
theorem Follows.invariant {rule : Session → Event → Prop} {P : Session → Prop}
    (hstep : ∀ s event, rule s event → P s → P (s.next event)) {s : Session}
    {events : List Event} (hrun : Follows rule s events) (hs : P s) : P (s.run events) := by
  induction events generalizing s with
  | nil => exact hs
  | cons event events ih => exact ih hrun.2 (hstep s event hrun.1 hs)

/-! ## What the surroundings did -/

/-- The records of a session agree with its conversation. -/
structure Tracks (s : Session) : Prop where
  storedAtAsk_le : s.storedAtAsk ≤ s.stored
  feed : s.conversation.feed =
    (Feed.empty s.conversation.bounds.capacity).pushAll s.delivered

theorem Tracks.readFrom_le {s : Session} (hs : s.Tracks) : s.readFrom ≤ s.stored := by
  unfold readFrom
  split
  · exact hs.storedAtAsk_le
  · exact Nat.le_refl _

theorem tracks_start (poolId : String) (bounds : Bounds) : (start poolId bounds).Tracks :=
  ⟨Nat.le_refl _, rfl⟩

theorem pushAll_append (f : Feed) (xs ys : List Entry) :
    f.pushAll (xs ++ ys) = (f.pushAll xs).pushAll ys :=
  List.foldl_append

theorem tracks_next {s : Session} (hs : s.Tracks) (event : Event) : (s.next event).Tracks := by
  cases event with
  | store count => exact ⟨Nat.le_trans hs.storedAtAsk_le (Nat.le_add_right _ _), hs.feed⟩
  | operate op =>
    refine ⟨hs.readFrom_le, ?_⟩
    simp only [next, feed_apply, bounds_apply]
    split
    · have hclear : s.conversation.feed.clear = .empty s.conversation.bounds.capacity := by
        rw [hs.feed, Feed.pushAll_empty]
        rfl
      rw [hclear, List.nil_append]
    · rw [hs.feed, ← pushAll_append]

theorem tracks_run {s : Session} (hs : s.Tracks) (events : List Event) : (s.run events).Tracks := by
  induction events generalizing s with
  | nil => exact hs
  | cons event events ih => exact ih (tracks_next hs event)

theorem Tracks.feed_entries {s : Session} (hs : s.Tracks) :
    s.conversation.feed.entries =
      Feed.retained s.conversation.bounds.capacity s.delivered := by
  rw [hs.feed, Feed.pushAll_empty]

/-- The feed's messages are the last ones delivered. -/
theorem Tracks.messages_feed_suffix {s : Session} (hs : s.Tracks) :
    messages s.conversation.feed.entries <:+ messages s.delivered := by
  rw [hs.feed_entries]
  exact Feed.messages_retained_suffix _ _

/-- Pages that are taken later are read from no less of the log. -/
theorem Tracks.readFrom_mono {s : Session} (hs : s.Tracks) (event : Event) :
    s.readFrom ≤ (s.next event).readFrom := by
  cases event with
  | store count =>
    show s.readFrom ≤ if s.conversation.isWaiting then s.storedAtAsk else s.stored + count
    unfold readFrom
    by_cases hw : s.conversation.isWaiting = true
    · simp only [hw, reduceIte, Nat.le_refl]
    · rw [if_neg hw, if_neg hw]
      exact Nat.le_add_right _ _
  | operate op =>
    show s.readFrom ≤ if (s.conversation.apply op).1.isWaiting then s.readFrom else s.stored
    split
    · exact Nat.le_refl _
    · exact hs.readFrom_le

/-- A page that an operation takes was read after it was asked for. -/
theorem Obeys.page_of_takes {log : List Message} {size : Nat} {s : Session} {op : Operation}
    (hrule : s.Obeys log size (.operate op)) {a : Awaited} {p : Page}
    (htakes : s.conversation.Takes op a p) :
    ∃ n ≤ s.stored, s.readFrom ≤ n ∧ (Archive.ofLog log size n).page? p.number = some p := by
  have hreads := hrule.reads
  cases htakes with
  | reply ha =>
    have hw : s.conversation.isWaiting = true := by rw [isWaiting, ha]; rfl
    rw [readFrom, if_pos hw]
    exact hreads hw p rfl
  | fetchOlder hw hask hp =>
    rw [readFrom, if_neg (by simp [isWaiting, hw])]
    exact hreads _ p hp
  | fetchNewer hw hask hp =>
    rw [readFrom, if_neg (by simp [isWaiting, hw])]
    exact hreads _ p hp

end Session

end Timeline
