import Timeline.Proofs.LogPages

/-!
# What is loaded is a part of the log

The loaded history is made of consecutive pages of the log, and stays so whatever happens: pages
are added at both ends and dropped at the other one, notices come in at the seam with the feed,
and the newest page may have been read before it was full.

The one thing that must not happen is an alignment that drops pages under a request
(`DropsUnderRequest`): the page that is awaited then belongs elsewhere.

Main statement: `Session.pieces_of_log`.
-/

namespace Timeline

open Conversation History

variable {log : List Message} {size : Nat}

/-! ## One page more -/

theorem covers_alignedAtPresent (hd : Distinct log) {c : Conversation}
    (hf : messages c.feed.entries <:+: log) {h : History} {stop : Nat}
    (hc : h.Covers log size stop) : (c.alignedAtPresent h).Covers log size stop := by
  unfold alignedAtPresent
  split
  · exact hc.align hd hf _
  · exact hc

/-- A history that takes the page next to it goes on to consist of pages of the log. -/
theorem covers_grown (hd : Distinct log) {c : Conversation}
    (hf : messages c.feed.entries <:+: log) {a : Awaited} {p : Page} {n limit : Nat}
    (hnext : ({ c with awaited := some a } : Conversation).AwaitsNext)
    (hc : ∀ h, c.history = some h → ∃ stop ≤ limit, h.Covers log size stop)
    (hn : n ≤ log.length) (hlimit : limit ≤ n)
    (hp : (Archive.ofLog log size n).page? p.number = some p) (hne : p.entries ≠ [])
    (hnumber : ∀ m, a.number = some m → p.number = m) :
    ∀ h, c.grown a.direction p = some h → ∃ stop ≤ n, h.Covers log size stop := by
  intro h hgrown
  unfold grown at hgrown
  cases hh : c.history with
  | none =>
    rw [hh] at hgrown
    cases hdir : a.direction with
    | newer =>
      rw [hdir] at hgrown
      cases hgrown
    | older =>
      rw [hdir] at hgrown
      obtain rfl := Option.some.inj hgrown
      exact ⟨_, Nat.min_le_left _ _, covers_alignedAtPresent hd hf (.ofPage hn hp hne)⟩
  | some h₀ =>
    obtain ⟨stop, hstop, hcovers⟩ := hc h₀ hh
    rw [hh] at hgrown
    simp only [AwaitsNext, hh, Awaited.IsNext] at hnext
    cases hdir : a.direction with
    | older =>
      rw [hdir] at hgrown hnext
      obtain rfl := Option.some.inj hgrown
      obtain ⟨k, hk⟩ := Option.isSome_iff_exists.1 hnext.1
      have hborder := Raw.older?_eq_some (hnext.2.symm.trans hk)
      obtain rfl := hnumber k hk
      obtain ⟨stop', hle, hcovers'⟩ := hcovers.pushFront hborder hn (Nat.le_trans hstop hlimit) hp
        hne c.bounds.capacity
      exact ⟨stop', by omega, hcovers'⟩
    | newer =>
      rw [hdir] at hgrown hnext
      obtain rfl := Option.some.inj hgrown
      rw [hnumber _ hnext.1] at hp
      exact ⟨_, Nat.min_le_left _ _,
        covers_alignedAtPresent hd hf (hcovers.pushBack hnext.2 hn hp hne _)⟩

namespace Session

/-! ## The invariant -/

/-- An alignment drops pages while an older page is awaited. -/
def Disturbs (s : Session) : Event → Prop
  | .store _ => False
  | .operate op => s.conversation.DropsUnderRequest op

/-- Storage and delivery follow the log, and no alignment drops pages under a request. This is so
where none is made while an older page of a loaded history is awaited. -/
structure Undisturbed (log : List Message) (size : Nat) (s : Session) (event : Event) : Prop
    extends s.Obeys log size event where
  undisturbed : ¬s.Disturbs event

/-- What is loaded is made of pages of the log, and was stored when the awaited page was asked
for. -/
structure Contiguous (log : List Message) (size : Nat) (s : Session) : Prop where
  tracks : s.Tracks
  stored : s.stored ≤ log.length
  delivered : messages s.delivered <:+: log
  awaitsNext : s.conversation.AwaitsNext
  history : ∀ h, s.conversation.history = some h → ∃ stop ≤ s.readFrom, h.Covers log size stop

theorem contiguous_start (log : List Message) (size : Nat) (poolId : String) (bounds : Bounds) :
    (start poolId bounds).Contiguous log size where
  tracks := tracks_start poolId bounds
  stored := Nat.zero_le _
  delivered := List.nil_infix
  awaitsNext := awaitsNext_of_idle rfl
  history := by
    intro h hh
    cases hh

theorem contiguous_next (hd : Distinct log) {s : Session} {event : Event}
    (hrule : s.Undisturbed log size event) (hs : s.Contiguous log size) :
    (s.next event).Contiguous log size := by
  have hmono := hs.tracks.readFrom_mono event
  have hfeed : messages s.conversation.feed.entries <:+: log :=
    hs.tracks.messages_feed_suffix.isInfix.trans hs.delivered
  refine ⟨tracks_next hs.tracks event, hrule.within.1, hrule.within.2, ?_, ?_⟩
  · cases event with
    | store count => exact hs.awaitsNext
    | operate op => exact (awaitsNext_apply_iff hs.awaitsNext op).2 hrule.undisturbed
  · intro h hh
    cases event with
    | store count =>
      obtain ⟨stop, hstop, hcovers⟩ := hs.history h hh
      exact ⟨stop, Nat.le_trans hstop hmono, hcovers⟩
    | operate op =>
      change (s.conversation.apply op).1.history = some h at hh
      cases historyStep_apply s.conversation op with
      | stays hsame =>
        obtain ⟨stop, hstop, hcovers⟩ := hs.history h (hsame ▸ hh)
        exact ⟨stop, Nat.le_trans hstop hmono, hcovers⟩
      | goes hgone =>
        rw [hgone] at hh
        cases hh
      | aligned hop hh₀ haligned =>
        obtain ⟨stop, hstop, hcovers⟩ := hs.history _ hh₀
        obtain rfl := Option.some.inj (haligned.symm.trans hh)
        exact ⟨stop, Nat.le_trans hstop hmono, hcovers.align hd hfeed _⟩
      | grows htakes hne hnumber hgrown =>
        obtain ⟨n, hn, hfrom, hp⟩ := hrule.page_of_takes htakes
        rw [hgrown] at hh
        obtain ⟨stop, hstop, hcovers⟩ := covers_grown hd hfeed (htakes.awaitsNext hs.awaitsNext)
          hs.history (Nat.le_trans hn hs.stored) hfrom hp hne hnumber h hh
        -- Nothing is awaited any more, so the next page will be read later.
        have hread : (s.next (.operate op)).readFrom = s.stored := by
          simp only [readFrom, next, hgrown]
          rfl
        exact ⟨stop, by omega, hcovers⟩

/-! ## Runs -/

/-- **Contiguity.** After every run the pages of the loaded history are consecutive pages of the
log. Only the newest one may lack messages at its end, and only where the history ends at the
present; it then ends where storage ended when that page was read. -/
theorem pieces_of_log (hd : Distinct log) {poolId : String} {bounds : Bounds}
    {events : List Event} (hrun : Follows (Undisturbed log size) (start poolId bounds) events)
    {h : History} (hh : ((start poolId bounds).run events).conversation.history = some h) :
    h.isConsistent = true ∧
      (∀ i, i + 1 < h.lengths.length →
        h.pieces[i]?.map messages = some (logPage log size (h.oldest + i))) ∧
      (∃ newest, h.pieces.getLast? = some newest ∧ messages newest ≠ [] ∧
        messages newest <+: logPage log size (h.newer - 1) ∧
        (h.atPresent = false → messages newest = logPage log size (h.newer - 1)) ∧
        ∃ n ≤ ((start poolId bounds).run events).stored, messages h.entries <:+ log.take n) ∧
      (h.startsAtBeginning = true ↔ h.oldest = 0) := by
  have hs : ((start poolId bounds).run events).Contiguous log size :=
    hrun.invariant (fun _ _ => contiguous_next hd) (contiguous_start log size poolId bounds)
  obtain ⟨stop, hstop, hcovers⟩ := hs.history h hh
  refine ⟨h.consistent, fun i => hcovers.inner, ⟨h.lastPage, h.lastPage_eq_getLast,
    hcovers.newest_ne_nil, hcovers.newest_prefix, hcovers.newest_full, stop, ?_,
    hcovers.messages_suffix⟩, hcovers.startsAtBeginning_iff⟩
  exact Nat.le_trans hstop hs.tracks.readFrom_le

def sixMessages : List Message := ["m1", "m2", "m3", "m4", "m5", "m6"].map .ofId

/-- Message `m6` is stored while the page before it is read, in which it is missing. The notice
comes in from the feed, and the page before is loaded. -/
def lateMessage : List Event :=
  [.store 5, .operate (.push (.message (.ofId "m4"))),
    .operate (.push (.membership ⟨"bob", 0, true⟩)), .operate (.push (.message (.ofId "m5"))),
    .operate .askOlder, .store 1,
    .operate (.receive (.ok (.asNewest
      (.numbered 1 [.message (.ofId "m4"), .message (.ofId "m5")])))),
    .operate .askOlder,
    .operate (.receive (.ok (.numbered 0 ((sixMessages.take 3).map .message))))]

def lateHistory : History :=
  ⟨⟨(sixMessages.take 4).map .message ++ [.membership ⟨"bob", 0, true⟩, .message (.ofId "m5")],
    [3, 3], 0, true, true⟩, rfl⟩

theorem pieces_of_log_lateMessage :
    ((start "pool" (.ofCapacity 6)).run lateMessage).conversation.history = some lateHistory ∧
      lateHistory.pieces[0]?.map messages = some (logPage sixMessages 3 0) ∧
      ∃ newest, lateHistory.pieces.getLast? = some newest ∧ messages newest ≠ [] ∧
        messages newest <+: logPage sixMessages 3 1 := by
  have hd : Distinct sixMessages := by decide
  have hwithin : Follows (StaysWithin sixMessages) (start "pool" (.ofCapacity 6)) lateMessage := by
    decide
  have hreads : Follows (ReadsHonestly sixMessages 3) (start "pool" (.ofCapacity 6))
      lateMessage :=
    ⟨trivial, trivial, trivial, trivial, trivial, trivial,
      fun _ => readBetween_ok_iff.2 (by decide), trivial,
      fun _ => readBetween_ok_iff.2 (by decide), trivial⟩
  have hquiet : Follows (fun s event => ¬s.Disturbs event) (start "pool" (.ofCapacity 6))
      lateMessage :=
    ⟨id, id, id, id, id, id, id, id, id, trivial⟩
  have hrun := ((hwithin.and hreads).and hquiet).mono fun s event h =>
    show s.Undisturbed sixMessages 3 event from ⟨⟨h.1.1, h.1.2⟩, h.2⟩
  have hh : ((start "pool" (.ofCapacity 6)).run lateMessage).conversation.history =
      some lateHistory := by decide
  obtain ⟨-, hinner, ⟨newest, hlast, hne, hprefix, -⟩, -⟩ := pieces_of_log hd hrun hh
  exact ⟨hh, hinner 0 (by decide), newest, hlast, hne, hprefix⟩

end Session

end Timeline
