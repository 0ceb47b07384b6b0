import Timeline.Proofs.Retention

/-!
# Live feeds over whole runs

A feed takes entries one by one. It starts again when it is cleared or is given a new sequence of
entries.

**What counts** (`Delivery.current`). The entries delivered since the feed last started again. What
was delivered before that leaves no trace (`run_empty`).

**The head.** A message at the head of a feed gives way to nothing but another message
(`startsWithMessage_pushAll`).

Main statement: `run_closedForm`, what a feed holds after every run.
-/

namespace Timeline

/-- Something that happens to a feed. -/
inductive Delivery
  | push (e : Entry)
  | replace (entries : List Entry)
  | clear
  deriving DecidableEq, Repr

/-- What counts after a delivery, where `delivered` counted before it. -/
def Delivery.next (delivered : List Entry) : Delivery → List Entry
  | .push e => delivered ++ [e]
  | .replace entries => entries
  | .clear => []

/-- All entries delivered since the feed last started again. -/
def Delivery.current (ds : List Delivery) : List Entry := ds.foldl Delivery.next []

/-- The first entry is a message. -/
def StartsWithMessage (entries : List Entry) : Prop := ∃ m rest, entries = .message m :: rest

namespace Feed

def deliver (f : Feed) : Delivery → Feed
  | .push e => f.push e
  | .replace entries => f.replace entries
  | .clear => f.clear

def run (f : Feed) (ds : List Delivery) : Feed := ds.foldl deliver f

/-! ## What a run leaves in the feed -/

theorem deliver_retained (capacity : Nat) (delivered : List Entry) (d : Delivery) :
    (⟨capacity, retained capacity delivered⟩ : Feed).deliver d =
      ⟨capacity, retained capacity (d.next delivered)⟩ := by
  cases d with
  | push e =>
    rw [deliver, push, fit_retained]
    rfl
  | replace entries => exact pushAll_empty capacity entries
  | clear => simp [deliver, Feed.clear, Delivery.next, retained]

theorem run_retained (capacity : Nat) (delivered : List Entry) (ds : List Delivery) :
    (⟨capacity, retained capacity delivered⟩ : Feed).run ds =
      ⟨capacity, retained capacity (ds.foldl Delivery.next delivered)⟩ := by
  induction ds generalizing delivered with
  | nil => rfl
  | cons d ds ih =>
    rw [run, List.foldl_cons, deliver_retained]
    exact ih (d.next delivered)

/-- A feed holds what is retained of the entries delivered since it last started again. -/
theorem run_empty (capacity : Nat) (ds : List Delivery) :
    (empty capacity).run ds = ⟨capacity, retained capacity (Delivery.current ds)⟩ := by
  have hstart : empty capacity = ⟨capacity, retained capacity []⟩ := by simp [empty, retained]
  rw [hstart, run_retained, Delivery.current]

/-- The kept entries are all retained, or a message from before stands for the first of them. -/
theorem anchored_cases (evicted kept : List Entry) :
    ((kept = [] ∨ StartsWithMessage kept ∨ messages evicted = []) ∧
        anchored evicted kept = kept) ∨
      ∃ e rest m, kept = e :: rest ∧ e.isMessage = false ∧
        (messages evicted).getLast? = some m ∧ anchored evicted kept = .message m :: rest := by
  cases kept with
  | nil => exact .inl ⟨.inl rfl, anchored_nil evicted⟩
  | cons e rest =>
    cases he : e.isMessage with
    | true =>
      obtain ⟨m, rfl⟩ := isMessage_eq_true_iff.1 he
      exact .inl ⟨.inr (.inl ⟨m, rest, rfl⟩), anchored_message evicted m rest⟩
    | false =>
      cases hm : (messages evicted).getLast? with
      | none =>
        have hnil : messages evicted = [] := List.getLast?_eq_none_iff.1 hm
        exact .inl ⟨.inr (.inr hnil), anchored_of_messages_eq_nil hnil _⟩
      | some m => exact .inr ⟨e, rest, m, rfl, he, rfl, anchored_notice he hm rest⟩

/-! ## A message at the head -/

theorem startsWithMessage_evict (m : Message) (next : Entry) (rest : List Entry) :
    StartsWithMessage (evict (.message m :: next :: rest)) := by
  cases hn : next.isMessage with
  | true =>
    obtain ⟨m', rfl⟩ := isMessage_eq_true_iff.1 hn
    exact ⟨m', rest, rfl⟩
  | false =>
    rw [evict, hn]
    exact ⟨m, rest, rfl⟩

/-- As long as an entry is left, a message stays at the head. -/
theorem startsWithMessage_evictMany {entries : List Entry} (h : StartsWithMessage entries) {n : Nat}
    (hn : n < entries.length) : StartsWithMessage (evictMany n entries) := by
  induction n generalizing entries with
  | zero => exact h
  | succ n ih =>
    have hleft : n < (evict entries).length := by
      rw [length_evict]
      omega
    obtain ⟨m, rest, rfl⟩ := h
    cases rest with
    | nil => simp at hn
    | cons next rest => exact ih (startsWithMessage_evict m next rest) hleft

theorem startsWithMessage_push {f : Feed} (hfits : f.entries.length ≤ f.capacity)
    (h : StartsWithMessage f.entries) (e : Entry) : StartsWithMessage (f.push e).entries := by
  obtain ⟨m, rest, hentries⟩ := h
  have hjoined : StartsWithMessage (f.entries ++ [e]) := ⟨m, rest ++ [e], by rw [hentries]; rfl⟩
  refine startsWithMessage_evictMany hjoined ?_
  rw [hentries, List.length_cons] at hfits
  rw [List.length_append, List.length_singleton]
  omega

theorem startsWithMessage_pushAll {f : Feed} (hfits : f.entries.length ≤ f.capacity)
    (h : StartsWithMessage f.entries) (more : List Entry) :
    StartsWithMessage (f.pushAll more).entries := by
  induction more generalizing f with
  | nil => exact h
  | cons e more ih => exact ih (length_push_le f e) (startsWithMessage_push hfits h e)

/-! ## Runs -/

theorem run_append (f : Feed) (ds ds' : List Delivery) : f.run (ds ++ ds') = (f.run ds).run ds' :=
  List.foldl_append

theorem run_map_push (f : Feed) (entries : List Entry) :
    f.run (entries.map .push) = f.pushAll entries :=
  List.foldl_map

/-- **Closed form.** A feed holds all that counts, if it fits. Otherwise it holds the last entries
that fit, or the last message before these and all of them but the first, which is a notice. Its
messages are the last ones delivered, and a message at its head gives way to messages only. -/
theorem run_closedForm (capacity : Nat) (ds : List Delivery) :
    let feed := (empty capacity).run ds
    let delivered := Delivery.current ds
    ((delivered.length ≤ capacity ∧ feed.entries = delivered) ∨
      (capacity < delivered.length ∧ ∃ before last, delivered = before ++ last ∧
        last.length = capacity ∧
        (((capacity = 0 ∨ StartsWithMessage last ∨ messages before = []) ∧ feed.entries = last) ∨
          ∃ e rest m, last = e :: rest ∧ e.isMessage = false ∧
            (messages before).getLast? = some m ∧ feed.entries = .message m :: rest))) ∧
      feed.capacity = capacity ∧ feed.entries.length ≤ capacity ∧
      messages feed.entries <:+ messages delivered ∧
      (StartsWithMessage feed.entries →
        ∀ more : List Entry,
          StartsWithMessage ((empty capacity).run (ds ++ more.map .push)).entries) := by
  intro feed delivered
  have hfeed : feed = ⟨capacity, retained capacity delivered⟩ := run_empty capacity ds
  have hentries : feed.entries = retained capacity delivered := by rw [hfeed]
  have hcapacity : feed.capacity = capacity := by rw [hfeed]
  have hlength : feed.entries.length ≤ capacity := by
    rw [hentries, length_retained]
    exact Nat.min_le_left _ _
  refine ⟨?_, hcapacity, hlength, ?_, ?_⟩
  · rcases Nat.lt_or_ge capacity delivered.length with hmore | hroom
    · have hsplit : delivered = delivered.take (delivered.length - capacity) ++
          delivered.drop (delivered.length - capacity) := (List.take_append_drop _ _).symm
      have hlast : (delivered.drop (delivered.length - capacity)).length = capacity := by
        rw [List.length_drop]
        omega
      refine .inr ⟨hmore, _, _, hsplit, hlast, ?_⟩
      rw [hentries, retained]
      obtain ⟨hwhy, hall⟩ | hanchor := anchored_cases
        (delivered.take (delivered.length - capacity))
        (delivered.drop (delivered.length - capacity))
      · refine .inl ⟨hwhy.imp_left fun hnil => ?_, hall⟩
        rw [← hlast, hnil, List.length_nil]
      · exact .inr hanchor
    · exact .inl ⟨hroom, hentries.trans (retained_of_length_le hroom)⟩
  · rw [hentries]
    exact messages_retained_suffix capacity delivered
  · intro hhead more
    rw [run_append, run_map_push]
    exact startsWithMessage_pushAll (hcapacity.symm ▸ hlength) hhead more

/-- A user joins after `m1`. A feed of three lets that notice go for `m3`, and keeps `m1` at its
head. -/
def noticeAfterFirst : List Delivery :=
  [.push (.message (.ofId "m0")), .clear, .push (.message (.ofId "m1")),
    .push (.membership ⟨"bob", 0, true⟩), .push (.message (.ofId "m2")),
    .push (.message (.ofId "m3"))]

theorem run_closedForm_noticeAfterFirst :
    let feed := (empty 3).run noticeAfterFirst
    feed.entries = ["m1", "m2", "m3"].map (.message ∘ .ofId) ∧
      messages feed.entries <:+ messages (Delivery.current noticeAfterFirst) ∧
      StartsWithMessage
        ((empty 3).run (noticeAfterFirst ++ [.push (.membership ⟨"bob", 1, false⟩)])).entries := by
  intro feed
  have hfeed : feed.entries = ["m1", "m2", "m3"].map (.message ∘ .ofId) := by decide
  obtain ⟨-, -, -, hsuffix, hhead⟩ := run_closedForm 3 noticeAfterFirst
  exact ⟨hfeed, hsuffix, hhead ⟨_, _, hfeed⟩ [.membership ⟨"bob", 1, false⟩]⟩

end Feed

end Timeline
