import Timeline.Proofs.LongestKept
import Timeline.Proofs.Seam

/-!
# The places of a seam

An alignment looks for three places: the first message of the feed, the history's newest message in
the feed, and the feed's first message in the newest page. Ids may stand anywhere more than once, so
it matters which of several places is taken.

**First and last places** (`FirstAt`, `LastAt`). A place is given by how it splits a sequence. The
searches of an alignment find these places and no others (`findIdx?_eq_some_iff_firstAt`,
`lastIndex?_eq_some_iff_lastAt`).

**Seams** (`SeamAt`). All three places at once. An alignment joins the history to the feed if and
only if there are such places, and it depends on nothing else (`align_of_seamAt`).

Main statement: `align_exact`, which outcome an alignment has and what it makes of the history.
-/

namespace Timeline

/-! ## First and last places -/

variable {α : Type} {p : α → Bool} {xs : List α} {i : Nat}

/-- Index `i` is the first at which `p` holds. -/
def FirstAt (p : α → Bool) (xs : List α) (i : Nat) : Prop :=
  ∃ before x after, xs = before ++ x :: after ∧ before.length = i ∧ p x = true ∧
    ∀ y ∈ before, p y = false

/-- Index `i` is the last at which `p` holds. -/
def LastAt (p : α → Bool) (xs : List α) (i : Nat) : Prop :=
  ∃ before x after, xs = before ++ x :: after ∧ before.length = i ∧ p x = true ∧
    ∀ y ∈ after, p y = false

theorem findIdx?_eq_some_iff_firstAt : xs.findIdx? p = some i ↔ FirstAt p xs i := by
  constructor
  · exact split_of_findIdx?
  · rintro ⟨before, x, after, rfl, rfl, hx, hbefore⟩
    have hnone : before.findIdx? p = none := List.findIdx?_eq_none_iff.2 hbefore
    simp [List.findIdx?_append, hnone, List.findIdx?_cons, hx]

theorem lastIndex?_eq_some_iff_lastAt : lastIndex? p xs = some i ↔ LastAt p xs i := by
  constructor
  · exact split_of_lastIndex?
  · rintro ⟨before, x, after, rfl, rfl, hx, hafter⟩
    have hfirst : FirstAt p (before ++ x :: after).reverse after.length :=
      ⟨after.reverse, x, before.reverse, by simp, List.length_reverse, hx,
        fun y hy => hafter y (List.mem_reverse.1 hy)⟩
    rw [lastIndex?, findIdx?_eq_some_iff_firstAt.2 hfirst, Option.map_some, List.length_append,
      List.length_cons]
    congr 1
    omega

theorem lastIndex?_eq_none_iff : lastIndex? p xs = none ↔ ∀ x ∈ xs, p x = false := by
  simp [lastIndex?]

/-- The entry is a message with this id. -/
def Entry.carries (id : String) (e : Entry) : Bool := e.id? == some id

theorem Entry.carries_eq_true_iff {id : String} {e : Entry} :
    e.carries id = true ↔ e.id? = some id := by
  simp [Entry.carries]

namespace Feed

variable {feed : Feed} {first last : Nat} {id : String}

theorem anchor?_eq_some_iff : feed.anchor? = some (first, id) ↔
    FirstAt Entry.isMessage feed.entries first ∧
      ∃ m, feed.entries[first]? = some (.message m) ∧ m.id = id := by
  constructor
  · intro h
    obtain ⟨before, m, after, hsplit, rfl, hm, hnone⟩ := anchor?_eq_some h
    exact ⟨⟨before, _, after, hsplit, rfl, rfl, messages_eq_nil_iff.1 hnone⟩, m, by simp [hsplit],
      hm⟩
  · rintro ⟨hfirst, m, hget, rfl⟩
    obtain ⟨before, e, after, hsplit, rfl, -, hbefore⟩ := id hfirst
    obtain rfl : e = .message m := by simpa [hsplit] using hget
    have hid : feed.entries.findSome? Entry.id? = some m.id := by
      rw [findSome?_id?, hsplit, messages_append, messages_eq_nil_iff.2 hbefore]
      rfl
    simp [anchor?, findIdx?_eq_some_iff_firstAt.2 hfirst, hid]

theorem indexOf?_eq_some_iff :
    feed.indexOf? id = some last ↔ FirstAt (Entry.carries id) feed.entries last :=
  findIdx?_eq_some_iff_firstAt

end Feed

namespace History

variable {h : History} {feed : Feed} {first last offset capacity : Nat}

theorem overlap?_eq_some_iff {id : String} : h.overlap? feed = some ⟨first, id, last⟩ ↔
    feed.anchor? = some (first, id) ∧
      ∃ newest, h.lastMessageId? = some newest ∧ feed.indexOf? newest = some last := by
  constructor
  · intro ho
    obtain ⟨hanchor, -, hnewest⟩ := Raw.overlap?_eq_some ho
    exact ⟨hanchor, hnewest⟩
  · rintro ⟨hanchor, newest, hnewest, hlast⟩
    have hle : ¬last < first := Nat.not_lt.2 (Feed.anchor_le_indexOf hanchor hlast)
    simp [Raw.overlap?, hanchor, hnewest, hlast, hle]

/-- The history and the feed overlap if and only if the history's newest message is in the feed. -/
theorem overlap?_eq_none_iff : h.overlap? feed = none ↔ h.overlapsFrom feed 0 = false := by
  unfold Raw.overlapsFrom
  cases hnewest : h.lastMessageId? with
  | none => simp [Raw.overlap?, hnewest]
  | some newest =>
    simp only [List.drop_zero]
    cases hlast : feed.indexOf? newest with
    | none =>
      have hnone : ∀ e ∈ feed.entries, (e.id? == some newest) = false :=
        List.findIdx?_eq_none_iff.1 hlast
      simpa [Raw.overlap?, hnewest, hlast] using hnone
    | some last =>
      obtain ⟨before, m, after, hsplit, -, hm, -⟩ := Feed.indexOf?_eq_some hlast
      have hmem : m ∈ messages feed.entries := by simp [hsplit]
      obtain ⟨front, rest, hfront⟩ := List.exists_cons_of_ne_nil (List.ne_nil_of_mem hmem)
      obtain ⟨first, hfirst⟩ := Feed.exists_anchor? (by rw [hfront, List.head?_cons])
      have ho : h.overlap? feed = some ⟨first, front.id, last⟩ :=
        overlap?_eq_some_iff.2 ⟨hfirst, newest, hnewest, hlast⟩
      simp [ho, hsplit, Entry.id?, hm]

/-! ## Seams -/

/-- Index `first` of the feed is that of its first message, index `last` the first one of the
history's newest message, and index `offset` of the newest page the last one of the feed's first
message. -/
structure SeamAt (h : History) (feed : Feed) (first last offset : Nat) : Prop where
  head : FirstAt Entry.isMessage feed.entries first
  newest : ∃ m, (messages h.entries).getLast? = some m ∧
    FirstAt (Entry.carries m.id) feed.entries last
  place : ∃ m, feed.entries[first]? = some (.message m) ∧
    LastAt (Entry.carries m.id) h.lastPage offset

theorem overlap?_eq_some_iff_exists {id : String} : h.overlap? feed = some ⟨first, id, last⟩ ↔
    FirstAt Entry.isMessage feed.entries first ∧
      (∃ m, feed.entries[first]? = some (.message m) ∧ m.id = id) ∧
      ∃ m, (messages h.entries).getLast? = some m ∧
        FirstAt (Entry.carries m.id) feed.entries last := by
  rw [overlap?_eq_some_iff, Feed.anchor?_eq_some_iff, and_assoc, Raw.lastMessageId?_eq_map]
  simp [Feed.indexOf?_eq_some_iff]

/-- The three searches find the places of a seam. -/
theorem seamAt_iff : SeamAt h feed first last offset ↔
    ∃ id, h.overlap? feed = some ⟨first, id, last⟩ ∧
      lastIndex? (Entry.carries id) h.lastPage = some offset := by
  constructor
  · rintro ⟨hhead, hnewest, m, hm, hplace⟩
    exact ⟨m.id, overlap?_eq_some_iff_exists.2 ⟨hhead, ⟨m, hm, rfl⟩, hnewest⟩,
      lastIndex?_eq_some_iff_lastAt.2 hplace⟩
  · rintro ⟨id, ho, hi⟩
    obtain ⟨hhead, ⟨m, hm, rfl⟩, hnewest⟩ := overlap?_eq_some_iff_exists.1 ho
    exact ⟨hhead, hnewest, m, hm, lastIndex?_eq_some_iff_lastAt.1 hi⟩

/-- The history whose newest page goes on with `tail` from index `offset` on. -/
def joinAt (h : History) (offset : Nat) (tail : List Entry) : History :=
  h.withLastPage (h.lastPage.take offset ++ tail)

/-- The entries of the feed from index `first` up to and including index `last`. -/
def shared (feed : Feed) (first last : Nat) : List Entry :=
  (feed.entries.take (last + 1)).drop first

theorem overlap_entries_eq_shared (feed : Feed) (first last : Nat) (id : String) :
    (⟨first, id, last⟩ : Overlap).entries feed = shared feed first last :=
  List.drop_take.symm

theorem SeamAt.first_le (hs : SeamAt h feed first last offset) : first ≤ last := by
  obtain ⟨id, ho, -⟩ := seamAt_iff.1 hs
  exact (Raw.overlap?_eq_some ho).2.1

theorem SeamAt.offset_lt (hs : SeamAt h feed first last offset) : offset < h.lastPage.length := by
  obtain ⟨m, -, before, e, after, hsplit, rfl, -, -⟩ := hs.place
  simp [hsplit]

theorem SeamAt.length_shared (hs : SeamAt h feed first last offset) :
    (shared feed first last).length = last + 1 - first := by
  obtain ⟨m, -, before, e, after, hsplit, rfl, -, -⟩ := hs.newest
  simp [shared, hsplit]

/-- What an alignment does at the places of a seam. -/
theorem align_of_seamAt (hs : SeamAt h feed first last offset) (capacity : Nat) :
    h.align feed capacity =
      (((h.joinAt offset (shared feed first last)).trimFront capacity).1,
        .aligned (h.entries.length - (h.lastStart + offset)) (last + 1 - first)) := by
  obtain ⟨id, ho, hi⟩ := seamAt_iff.1 hs
  have hoffset : (h.lastPage.take offset).length = offset :=
    List.length_take_of_le (Nat.le_of_lt hs.offset_lt)
  have hplace : h.lastPageIndex? id = some (h.lastStart + (h.lastPage.take offset).length) := by
    show (lastIndex? (Entry.carries id) h.lastPage).map (h.lastStart + ·) = _
    rw [hi, hoffset]
    rfl
  rw [align_of_lastPageIndex? ho (List.take_append_drop offset h.lastPage).symm hplace, hoffset,
    overlap_entries_eq_shared]
  rfl

/-! ## Outcomes -/

theorem align_noOverlap_iff (h : History) (feed : Feed) (capacity : Nat) :
    (h.align feed capacity).2 = .noOverlap ↔ h.overlapsFrom feed 0 = false := by
  show (h.toRaw.align feed capacity).2 = _ ↔ _
  rw [← overlap?_eq_none_iff, Raw.align]
  cases h.overlap? feed with
  | none => simp
  | some o => cases hi : h.lastPageIndex? o.anchor <;> simp [hi]

theorem align_outside_iff (h : History) (feed : Feed) (capacity : Nat) :
    (h.align feed capacity).2 = .anchorOutsideLastPage ↔
      h.overlapsFrom feed 0 = true ∧ ∀ m, (messages feed.entries).head? = some m →
        ∀ e ∈ h.lastPage, e.id? ≠ some m.id := by
  show (h.toRaw.align feed capacity).2 = _ ↔ _
  rw [← Bool.not_eq_false, ← overlap?_eq_none_iff, Raw.align]
  cases ho : h.overlap? feed with
  | none => simp
  | some o =>
    obtain ⟨m, -, hm, hid, -⟩ := Raw.ends_of_overlap? ho
    have hsearch : h.lastPageIndex? o.anchor = none ↔ ∀ e ∈ h.lastPage, e.id? ≠ some m.id := by
      rw [Raw.lastPageIndex?, Option.map_eq_none_iff, lastIndex?_eq_none_iff, hid]
      simp
    cases hi : h.lastPageIndex? o.anchor with
    | none => simpa [hi, hm] using hsearch.1 hi
    | some start => simpa [hi, hm] using hsearch.not.1 (by simp [hi])

/-- There are places of a seam wherever an alignment ends with neither of the other outcomes. -/
theorem exists_seamAt_iff (h : History) (feed : Feed) (capacity : Nat) :
    (∃ first last offset, SeamAt h feed first last offset) ↔
      (h.align feed capacity).2 ≠ .noOverlap ∧
        (h.align feed capacity).2 ≠ .anchorOutsideLastPage := by
  constructor
  · rintro ⟨first, last, offset, hs⟩
    rw [align_of_seamAt hs]
    exact ⟨nofun, nofun⟩
  · rintro ⟨hoverlap, hinside⟩
    cases ho : h.overlap? feed with
    | none => exact absurd (by simp [align, Raw.align, ho]) hoverlap
    | some o =>
      cases hi : h.lastPageIndex? o.anchor with
      | none => exact absurd (by simp [align, Raw.align, ho, hi]) hinside
      | some start =>
        obtain ⟨offset, hoffset, -⟩ := Option.map_eq_some_iff.1 hi
        exact ⟨o.first, o.last, offset, seamAt_iff.2 ⟨o.anchor, ho, hoffset⟩⟩

theorem align_fst_of_snd (hnone : (h.align feed capacity).2 = .noOverlap ∨
    (h.align feed capacity).2 = .anchorOutsideLastPage) : (h.align feed capacity).1 = h := by
  obtain ⟨heq, -⟩ | ⟨-, removed, inserted, haligned⟩ := align_cases h feed capacity
  · exact heq
  · rw [haligned] at hnone
    rcases hnone with hnone | hnone <;> cases hnone

/-- An alignment has places of a seam, or leaves the history as it is. -/
theorem seamAt_or_same (h : History) (feed : Feed) (capacity : Nat) :
    (∃ first last offset, SeamAt h feed first last offset) ∨
      ((h.align feed capacity).2 = .noOverlap ∨
        (h.align feed capacity).2 = .anchorOutsideLastPage) ∧ (h.align feed capacity).1 = h := by
  by_cases hseam : ∃ first last offset, SeamAt h feed first last offset
  · exact .inl hseam
  · rw [exists_seamAt_iff h feed capacity, not_and_or, not_not, not_not] at hseam
    exact .inr ⟨hseam, align_fst_of_snd hseam⟩

/-- The history's newest message is not in the feed: there is none, or its id occurs nowhere. -/
theorem overlapsFrom_zero_eq_false_iff (h : History) (feed : Feed) :
    h.overlapsFrom feed 0 = false ↔ messages h.entries = [] ∨
      ∃ newest, (messages h.entries).getLast? = some newest ∧
        ∀ e ∈ feed.entries, e.id? ≠ some newest.id := by
  rw [Raw.overlapsFrom, Raw.lastMessageId?_eq_map]
  cases hlast : (messages h.entries).getLast? with
  | none => simpa using List.getLast?_eq_none_iff.1 hlast
  | some newest =>
    have hne : messages h.entries ≠ [] := by
      intro hnil
      simp [hnil] at hlast
    simp [hne]

/-- What an alignment at the places of a seam makes of the history. The newest page keeps its first
`offset` entries and goes on with the shared part of the feed; the other pages stay, except the
oldest ones, which the trim may drop. -/
structure AlignedAt (h : History) (feed : Feed) (capacity first last offset : Nat)
    (h' : History) : Prop where
  trimmed : h' = ((h.joinAt offset (shared feed first last)).trimFront capacity).1
  lastPage : h'.lastPage = h.lastPage.take offset ++ shared feed first last
  suffix : shared feed first last <:+ h'.entries
  newer : h'.newer = h.newer
  atPresent : h'.atPresent = h.atPresent
  oldest : h'.oldest = h.oldest +
    ((h.joinAt offset (shared feed first last)).trimFront capacity).2
  atBeginning : h'.atBeginning = (h.atBeginning &&
    ((h.joinAt offset (shared feed first last)).trimFront capacity).2 == 0)

theorem alignedAt_of_seamAt (hs : SeamAt h feed first last offset) (capacity : Nat) :
    AlignedAt h feed capacity first last offset (h.align feed capacity).1 := by
  have hjoined := h.shortened_withLastPage (h.lastPage.take offset ++ shared feed first last)
  obtain ⟨-, htrimmed, -⟩ := (h.joinAt offset (shared feed first last)).trimFront_spec capacity
  have hshort := hjoined.trans_zero htrimmed
  have hpage := ((h.joinAt offset (shared feed first last)).lastPage_trimFront capacity).trans
    (h.lastPage_withLastPage _)
  have hend := lastPage_suffix ((h.joinAt offset (shared feed first last)).trimFront capacity).1
  rw [hpage] at hend
  rw [align_of_seamAt hs]
  exact {
    trimmed := rfl
    lastPage := hpage
    suffix := (List.suffix_append _ _).trans hend
    newer := hshort.newer
    atPresent := hshort.atPresent
    oldest := hshort.oldest
    atBeginning := hshort.atBeginning }

/-- **Alignments, exactly.** Without overlap, or with the feed's first message outside the newest
page, the history stays as it is. Otherwise there are places of a seam, and they fix the rest: the
outcome counts the entries from the place in the newest page on and those of the shared part, and
the latter stand for the former. -/
theorem align_exact (h : History) (feed : Feed) (capacity : Nat) :
    let result := h.align feed capacity
    (result.2 = .noOverlap ↔ h.overlapsFrom feed 0 = false) ∧
      (h.overlapsFrom feed 0 = false ↔ messages h.entries = [] ∨
        ∃ newest, (messages h.entries).getLast? = some newest ∧
          ∀ e ∈ feed.entries, e.id? ≠ some newest.id) ∧
      (result.2 = .anchorOutsideLastPage ↔ h.overlapsFrom feed 0 = true ∧
        ∀ m, (messages feed.entries).head? = some m → ∀ e ∈ h.lastPage, e.id? ≠ some m.id) ∧
      (result.2 = .noOverlap ∨ result.2 = .anchorOutsideLastPage → result.1 = h) ∧
      ((∃ first last offset, SeamAt h feed first last offset) ↔
        result.2 ≠ .noOverlap ∧ result.2 ≠ .anchorOutsideLastPage) ∧
      ∀ first last offset, SeamAt h feed first last offset →
        first ≤ last ∧ (shared feed first last).length = last + 1 - first ∧
          result.2 = .aligned (h.entries.length - (h.lastStart + offset)) (last + 1 - first) ∧
          AlignedAt h feed capacity first last offset result.1 := by
  intro result
  refine ⟨align_noOverlap_iff h feed capacity, overlapsFrom_zero_eq_false_iff h feed,
    align_outside_iff h feed capacity, align_fst_of_snd, exists_seamAt_iff h feed capacity, ?_⟩
  intro first last offset hs
  exact ⟨hs.first_le, hs.length_shared, congrArg Prod.snd (align_of_seamAt hs capacity),
    alignedAt_of_seamAt hs capacity⟩

/-- Message `m3` stands twice in the newest page. -/
def repeatingPages : History :=
  ⟨⟨["m0", "m1", "m2", "m3", "m4", "m3", "m5"].map (.message ∘ .ofId), [1, 2, 4], 4, true, false⟩,
    rfl⟩

/-- Message `m5` stands twice in the feed, which begins with a notice. -/
def repeatingFeed : Feed :=
  ⟨6, .membership ⟨"bob", 0, true⟩ ::
    ["m3", "m9", "m5", "m6", "m5"].map (.message ∘ .ofId)⟩

/-- The later `m3` and the earlier `m5` are taken. One page has to go for the message that comes
in. -/
theorem align_exact_repeating :
    SeamAt repeatingPages repeatingFeed 1 3 2 ∧
      (repeatingPages.align repeatingFeed 7).2 = .aligned 2 3 ∧
      AlignedAt repeatingPages repeatingFeed 7 1 3 2 (repeatingPages.align repeatingFeed 7).1 ∧
      (repeatingPages.align repeatingFeed 7).1.oldest = 5 := by
  have hs : SeamAt repeatingPages repeatingFeed 1 3 2 := {
    head := ⟨[_], _, _, rfl, rfl, rfl, by decide⟩
    newest := ⟨_, rfl, [_, _, _], _, _, rfl, rfl, by decide, by decide⟩
    place := ⟨_, rfl, [_, _], _, [_], rfl, rfl, by decide, by decide⟩ }
  obtain ⟨-, -, -, -, -, hseam⟩ := align_exact repeatingPages repeatingFeed 7
  obtain ⟨-, -, houtcome, haligned⟩ := hseam 1 3 2 hs
  exact ⟨hs, houtcome, haligned, by decide⟩

end History

end Timeline
