import Timeline.Proofs.Failing
import Timeline.Proofs.Seam
import Timeline.Proofs.Session

/-!
# Where the feed takes over

A reader at the present who asks for a newer page goes on in the live feed, if that holds the
history's last message far enough from its start.

**The place** (`MeetsAt`). A message of the feed, at the threshold's index or behind it, with the id
of the history's last message. Ids may repeat, so there may be several such places.

**Why nothing is skipped** (`GoesOn`). The messages of a feed are the last ones delivered, so behind
any message of the feed stand all messages that were delivered after it. Notices may be missing
between them; they give way to messages.

Main statement: `collapse_skips_nothing`.
-/

namespace Timeline

open Conversation

/-- A newer page is asked for. -/
def Operation.asksNewer : Operation → Bool
  | .askNewer => true
  | .fetchNewer _ => true
  | _ => false

/-! ## The place -/

namespace History

/-- The feed is `before`, then a message with the id of the history's last message, then `after`;
and that message stands at the threshold's index or behind it. -/
structure MeetsAt (h : History) (feed : Feed) (threshold : Nat) (before : List Entry)
    (m : Message) (after : List Entry) : Prop where
  entries : feed.entries = before ++ .message m :: after
  threshold_le : threshold ≤ before.length
  lastId : (messages h.entries).getLast?.map Message.id = some m.id

theorem overlapsFrom_iff {h : History} {feed : Feed} {threshold : Nat} :
    h.overlapsFrom feed threshold = true ↔
      ∃ before m after, h.MeetsAt feed threshold before m after := by
  unfold Raw.overlapsFrom
  rw [Raw.lastMessageId?_eq_map]
  cases hlast : (messages h.entries).getLast? with
  | none =>
    refine iff_of_false Bool.false_ne_true ?_
    rintro ⟨before, m, after, hmeets⟩
    have hid := hmeets.lastId
    rw [hlast] at hid
    cases hid
  | some last =>
    simp only [Option.map_some, List.any_eq_true, beq_iff_eq]
    constructor
    · rintro ⟨e, he, hid⟩
      obtain ⟨m, rfl, hm⟩ := id?_eq_some_iff.1 hid
      obtain ⟨front, after, hdrop⟩ := List.append_of_mem he
      have hle : threshold ≤ feed.entries.length := by
        have hlength := congrArg List.length hdrop
        simp only [List.length_drop, List.length_append, List.length_cons] at hlength
        omega
      refine ⟨feed.entries.take threshold ++ front, m, after, ?_, ?_, ?_⟩
      · rw [List.append_assoc, ← hdrop, List.take_append_drop]
      · rw [List.length_append, List.length_take_of_le hle]
        exact Nat.le_add_right _ _
      · rw [hlast, Option.map_some, hm]
    · rintro ⟨before, m, after, hentries, hle, hid⟩
      rw [hlast] at hid
      refine ⟨.message m, ?_, hid.symm⟩
      rw [hentries, List.drop_append_of_le_length hle]
      exact List.mem_append_right _ List.mem_cons_self

/-- A feed that does not go beyond the threshold has no such place. -/
theorem MeetsAt.lt_length {h : History} {feed : Feed} {threshold : Nat}
    {before after : List Entry} {m : Message} (hmeets : h.MeetsAt feed threshold before m after) :
    threshold < feed.entries.length := by
  have hle := hmeets.threshold_le
  rw [hmeets.entries, List.length_append, List.length_cons]
  omega

end History

/-! ## The return to live mode -/

namespace Conversation

variable {c : Conversation}

/-- A newer page is asked for, and in answer the history goes without a failure. -/
structure Collapses (c : Conversation) (op : Operation) : Prop where
  asksNewer : op.asksNewer = true
  answered : (c.apply op).2.failure? = none
  loaded : c.history.isSome = true
  dropped : (c.apply op).1.history = none

/-- The history ends at the present, and the feed holds its last message far enough from the
start. -/
def IsTakenOver (c : Conversation) : Prop :=
  ∃ h, c.history = some h ∧ h.atPresent = true ∧
    h.overlapsFrom c.feed c.bounds.threshold = true

theorem isTakenOver_of_askNewer (hback : c.askNewer.2 = .ok .backToLive) : c.IsTakenOver := by
  unfold askNewer at hback
  split at hback
  · cases hback
  · split at hback
    · cases hback
    · next h hh =>
      split at hback
      · next hpresent =>
        split at hback
        · next htakes => exact ⟨h, hh, hpresent, by rwa [feedTakesOver, hh] at htakes⟩
        · cases hback
      · cases hback

theorem askNewer_of_backToLive (hback : c.askNewer.2 = .ok .backToLive) :
    c.askNewer = (c.leaveHistory, .ok .backToLive) := by
  obtain ⟨failure, hask⟩ | hask | ⟨h, -, -, -, hask⟩ := askNewer_cases c
  · rw [hask] at hback
    cases hback
  · exact hask
  · rw [hask] at hback
    cases hback

/-- By hand or in one step, the return to live mode leaves all but the history as it was. -/
theorem apply_of_backToLive {op : Operation} (hasks : op.asksNewer = true)
    (hback : c.askNewer.2 = .ok .backToLive) :
    (c.apply op).1 = c.leaveHistory ∧ (c.apply op).2.failure? = none := by
  have hask := askNewer_of_backToLive hback
  cases op with
  | askNewer =>
    rw [apply, hask]
    exact ⟨rfl, rfl⟩
  | fetchNewer source =>
    rw [apply, fetchNewer, hask]
    exact ⟨rfl, rfl⟩
  | _ => cases hasks

/-- After a reply that is not refused there is a history. -/
theorem history_receive_of_ok {reply : Reply} {more : Bool} (h : (c.receive reply).2 = .ok more) :
    (c.receive reply).1.history.isSome = true := by
  obtain ⟨a, p, -, -, -, heq⟩ := receive_of_ok h
  rw [heq] at h ⊢
  unfold merge at h ⊢
  split at h
  · rfl
  · rfl
  · rfl
  · cases h

/-- The history goes for a newer page if and only if asking for one leads back to live mode. -/
theorem collapses_iff {op : Operation} :
    c.Collapses op ↔ op.asksNewer = true ∧ c.askNewer.2 = .ok .backToLive := by
  constructor
  · rintro ⟨hasks, hanswered, hloaded, hdropped⟩
    refine ⟨hasks, ?_⟩
    obtain ⟨failure, hask⟩ | hask | ⟨h, -, -, -, hask⟩ := askNewer_cases c
    · cases op with
      | askNewer =>
        rw [apply, hask] at hanswered
        cases hanswered
      | fetchNewer source =>
        rw [apply, fetchNewer, hask] at hanswered
        cases hanswered
      | _ => cases hasks
    · rw [hask]
    · cases op with
      | askNewer =>
        rw [apply, hask] at hdropped
        exact absurd hdropped (Option.isSome_iff_ne_none.1 hloaded)
      | fetchNewer source =>
        -- A page was read, and where that is no failure it is loaded.
        change failureOf? (c.fetchNewer source).2.result = none at hanswered
        change (c.fetchNewer source).1.history = none at hdropped
        rw [fetchNewer, hask] at hanswered hdropped
        obtain ⟨more, hmore⟩ := exists_ok_of_failureOf?_eq_none hanswered
        have hsome := history_receive_of_ok hmore
        exact absurd hdropped (Option.isSome_iff_ne_none.1 hsome)
      | _ => cases hasks
  · rintro ⟨hasks, hback⟩
    obtain ⟨hleft, hanswered⟩ := apply_of_backToLive hasks hback
    obtain ⟨h, hh, -, -⟩ := isTakenOver_of_askNewer hback
    exact ⟨hasks, hanswered, by rw [hh]; rfl, by rw [hleft]; rfl⟩

/-- A request at the present is refused where the feed does not take over. -/
theorem askNewer_of_not_overlapsFrom {h : History} (hw : c.awaited = none)
    (hh : c.history = some h) (hpresent : h.atPresent = true)
    (hoverlaps : ¬h.overlapsFrom c.feed c.bounds.threshold = true) :
    c.askNewer = (c, .error .atPresent) := by
  rw [askNewer_of_atPresent hw hh hpresent, if_neg]
  rwa [feedTakesOver, hh]

end Conversation

/-! ## Nothing is skipped -/

namespace Session

/-- Behind the message `m` the feed holds `after`, and with that all messages delivered since `m`,
in their order. -/
def GoesOn (s : Session) (m : Message) (after : List Entry) : Prop :=
  ∃ earlier later, s.delivered = earlier ++ .message m :: later ∧ messages after = messages later

/-- Behind any message of the feed stand all messages delivered since. -/
theorem Tracks.goesOn {s : Session} (hs : s.Tracks) {before after : List Entry} {m : Message}
    (hsplit : s.conversation.feed.entries = before ++ .message m :: after) : s.GoesOn m after := by
  obtain ⟨front, hfront⟩ := hs.messages_feed_suffix
  rw [hsplit, messages_append, messages_message, ← List.append_assoc] at hfront
  obtain ⟨earlier, later, hdelivered, hlater⟩ := exists_split_of_messages hfront.symm
  exact ⟨earlier, later, hdelivered, hlater.symm⟩

/-- **The return to live mode skips nothing.** Wherever in a run a newer page is asked for and the
history goes for it, the history ends at the present and the feed holds its last message at the
threshold's index or behind it. From each such place on the feed holds all messages delivered since,
in their order, and it is the feed as it was that is shown from then on. A feed that does not go
beyond the threshold never takes over, and at the present the request is refused. -/
theorem collapse_skips_nothing (poolId : String) (bounds : Bounds) (events : List Event) :
    let s := (start poolId bounds).run events
    let c := s.conversation
    (∀ op, c.Collapses op → ∃ h, c.history = some h ∧ h.atPresent = true ∧
        (∃ before m after, h.MeetsAt c.feed c.bounds.threshold before m after) ∧
        (∀ before m after, h.MeetsAt c.feed c.bounds.threshold before m after →
          s.GoesOn m after ∧ (c.apply op).1.shown = before ++ .message m :: after) ∧
        (c.apply op).1.feed = c.feed) ∧
      (c.feed.entries.length ≤ c.bounds.threshold →
        (∀ op, ¬c.Collapses op) ∧
        ∀ h, c.awaited = none → c.history = some h → h.atPresent = true →
          c.askNewer = (c, .error .atPresent)) := by
  intro s c
  have hs : s.Tracks := tracks_run (tracks_start poolId bounds) events
  constructor
  · intro op hcollapses
    obtain ⟨hasks, hback⟩ := collapses_iff.1 hcollapses
    obtain ⟨hleft, -⟩ := apply_of_backToLive hasks hback
    obtain ⟨h, hh, hpresent, hoverlaps⟩ := isTakenOver_of_askNewer hback
    refine ⟨h, hh, hpresent, History.overlapsFrom_iff.1 hoverlaps, ?_, ?_⟩
    · intro before m after hmeets
      refine ⟨hs.goesOn hmeets.entries, ?_⟩
      rw [hleft, ← hmeets.entries]
      rfl
    · rw [hleft]
      rfl
  · intro hshort
    have hnone : ∀ h : History, ¬h.overlapsFrom c.feed c.bounds.threshold = true := by
      intro h hoverlaps
      obtain ⟨before, m, after, hmeets⟩ := History.overlapsFrom_iff.1 hoverlaps
      exact absurd hmeets.lt_length (Nat.not_lt_of_le hshort)
    constructor
    · intro op hcollapses
      obtain ⟨h, -, -, hoverlaps⟩ := isTakenOver_of_askNewer (collapses_iff.1 hcollapses).2
      exact hnone h hoverlaps
    · intro h hw hh hpresent
      exact askNewer_of_not_overlapsFrom hw hh hpresent (hnone h)

/-- Message `m2` arrives twice, the second time behind `m1` and a notice, and then `m3`. The page
with `m1` and the second `m2` is loaded as the newest one. -/
def secondCopy : List Event :=
  [.push (.message (.ofId "m2")), .push (.message (.ofId "m1")), .memberJoined "user" 1,
    .push (.message (.ofId "m2")), .push (.message (.ofId "m3")), .askOlder,
    .receive (.ok (Page.asNewest
      (.numbered 0 [.message (.ofId "m1"), .message (.ofId "m2")])))].map .operate

/-- From index 1 on, the feed of four takes over at the second `m2`, and `m3` is what was delivered
since. The feed of six holds no more than five entries, and does not take over from index 5 on. -/
theorem collapse_skips_nothing_secondCopy :
    let s := (start "pool" ⟨4, some 1⟩).run secondCopy
    let c := s.conversation
    let c' := ((start "pool" ⟨6, some 5⟩).run secondCopy).conversation
    c.Collapses .askNewer ∧
      (c.apply .askNewer).1.shown = [.message (.ofId "m1"), .membership ⟨"user", 1, true⟩] ++
        .message (.ofId "m2") :: [.message (.ofId "m3")] ∧
      s.GoesOn (.ofId "m2") [.message (.ofId "m3")] ∧
      c'.feed.entries.length ≤ c'.bounds.threshold ∧ ¬c'.Collapses .askNewer ∧
      c'.askNewer = (c', .error .atPresent) := by
  intro s c c'
  have hcollapses : c.Collapses .askNewer := ⟨rfl, by decide, by decide, by decide⟩
  obtain ⟨hskips, -⟩ := collapse_skips_nothing "pool" ⟨4, some 1⟩ secondCopy
  obtain ⟨-, hrefuses⟩ := collapse_skips_nothing "pool" ⟨6, some 5⟩ secondCopy
  obtain ⟨h, hh, -, -, hplaces, -⟩ := hskips .askNewer hcollapses
  have hhistory : c.history = some ⟨⟨[.message (.ofId "m1"), .membership ⟨"user", 1, true⟩,
      .message (.ofId "m2")], [3], 0, true, true⟩, rfl⟩ := by decide
  obtain rfl := Option.some.inj (hh.symm.trans hhistory)
  obtain ⟨hgoesOn, hshown⟩ := hplaces [.message (.ofId "m1"), .membership ⟨"user", 1, true⟩]
    (.ofId "m2") [.message (.ofId "m3")] ⟨by decide, by decide, by decide⟩
  have hshort : c'.feed.entries.length ≤ c'.bounds.threshold := by decide
  have hhistory' : c'.history =
      some ⟨⟨[.message (.ofId "m1"), .message (.ofId "m2")], [2], 0, true, true⟩, rfl⟩ := by decide
  obtain ⟨hnever, hatPresent⟩ := hrefuses hshort
  exact ⟨hcollapses, hshown, hgoesOn, hshort, hnever .askNewer,
    hatPresent _ (by decide) hhistory' rfl⟩

end Session

end Timeline
