import Timeline.History.Alignment
import Timeline.Proofs.Messages
import Timeline.Proofs.Trimming

/-!
# The seam between history and live feed

**Searches.** An alignment makes three searches: for the feed's first message, for the history's
last message in the feed, and for the feed's first message in the newest page. Each of them is
described by how it splits its sequence (`anchor?_eq_some`, `indexOf?_eq_some`,
`lastPageIndex?_eq_some`).

**What it makes of them** (`align_cases`). Without a place to join, the history stays as it is.
Otherwise it gets another newest page (`withLastPage`), which ends with the shared part of the feed,
and its front is trimmed.

**Why the searches agree.** The replaced end of the history and the shared part of the feed begin
with the same message and end with the same message. Both are parts of one log, so they hold the
same messages (`messages_overlap`), and joining changes no page's messages (`messages_joined`).

Main statements: `align_spec`, an alignment keeps the messages of each page and drops whole pages
at the front; `align_seam`, the seam neither loses nor doubles nor reorders messages.
-/

namespace Timeline

/-! ## What the searches find -/

theorem split_of_findIdx? {α : Type} {p : α → Bool} {xs : List α} {i : Nat}
    (h : xs.findIdx? p = some i) :
    ∃ before x after, xs = before ++ x :: after ∧ before.length = i ∧ p x = true ∧
      ∀ y ∈ before, p y = false := by
  obtain ⟨hi, hp, hbefore⟩ := List.findIdx?_eq_some_iff_getElem.1 h
  refine ⟨xs.take i, xs[i], xs.drop (i + 1), ?_, List.length_take_of_le (Nat.le_of_lt hi), hp, ?_⟩
  · rw [← List.drop_eq_getElem_cons hi, List.take_append_drop]
  · intro y hy
    obtain ⟨j, hj, rfl⟩ := List.mem_take_iff_getElem.1 hy
    simpa using hbefore j (by omega)

theorem split_of_lastIndex? {α : Type} {p : α → Bool} {xs : List α} {i : Nat}
    (h : lastIndex? p xs = some i) :
    ∃ before x after, xs = before ++ x :: after ∧ before.length = i ∧ p x = true ∧
      ∀ y ∈ after, p y = false := by
  rw [lastIndex?, Option.map_eq_some_iff] at h
  obtain ⟨j, hj, rfl⟩ := h
  obtain ⟨after, x, before, hrev, rfl, hp, hafter⟩ := split_of_findIdx? hj
  have hsplit : xs = before.reverse ++ x :: after.reverse := by
    rw [← List.reverse_reverse xs, hrev]
    simp
  refine ⟨before.reverse, x, after.reverse, hsplit, ?_, hp,
    fun y hy => hafter y (List.mem_reverse.1 hy)⟩
  rw [hsplit]
  simp only [List.length_append, List.length_cons, List.length_reverse]
  omega

namespace Feed

/-- The feed's first message stands behind notices only. -/
theorem anchor?_eq_some {feed : Feed} {i : Nat} {id : String} (h : feed.anchor? = some (i, id)) :
    ∃ before m after, feed.entries = before ++ .message m :: after ∧ before.length = i ∧
      m.id = id ∧ messages before = [] := by
  obtain ⟨j, hj, h⟩ := Option.bind_eq_some_iff.1 h
  obtain ⟨id', hid, h⟩ := Option.bind_eq_some_iff.1 h
  obtain ⟨rfl, rfl⟩ := Prod.mk.inj (Option.some.inj h)
  obtain ⟨before, e, after, hsplit, hlen, he, hbefore⟩ := split_of_findIdx? hj
  obtain ⟨m, rfl⟩ := isMessage_eq_true_iff.1 he
  have hnone : messages before = [] := messages_eq_nil_iff.2 hbefore
  refine ⟨before, m, after, hsplit, hlen, ?_, hnone⟩
  rw [findSome?_id?, hsplit, messages_append, hnone] at hid
  simpa using hid

theorem indexOf?_eq_some {feed : Feed} {i : Nat} {id : String} (h : feed.indexOf? id = some i) :
    ∃ before m after, feed.entries = before ++ .message m :: after ∧ before.length = i ∧
      m.id = id ∧ ∀ e ∈ before, e.id? ≠ some id := by
  obtain ⟨before, e, after, hsplit, hlen, hid, hbefore⟩ := split_of_findIdx? h
  obtain ⟨m, rfl, hm⟩ := id?_eq_some_iff.1 (by simpa using hid)
  refine ⟨before, m, after, hsplit, hlen, hm, ?_⟩
  intro e he
  simpa using hbefore e he

theorem exists_anchor? {feed : Feed} {first : Message}
    (h : (messages feed.entries).head? = some first) : ∃ i, feed.anchor? = some (i, first.id) := by
  have hid : feed.entries.findSome? Entry.id? = some first.id := by
    rw [findSome?_id?, h, Option.map_some]
  have hmem : .message first ∈ feed.entries := mem_messages.1 (List.mem_of_mem_head? h)
  cases hi : feed.entries.findIdx? Entry.isMessage with
  | none => simpa [Entry.isMessage] using List.findIdx?_eq_none_iff.1 hi _ hmem
  | some i => exact ⟨i, by simp [anchor?, hi, hid]⟩

theorem exists_indexOf? {feed : Feed} {m : Message} (h : m ∈ messages feed.entries) :
    ∃ i, feed.indexOf? m.id = some i := by
  cases hi : feed.indexOf? m.id with
  | none => simpa [Entry.id?] using List.findIdx?_eq_none_iff.1 hi _ (mem_messages.1 h)
  | some i => exact ⟨i, rfl⟩

/-- No message stands before the first one. -/
theorem anchor_le_indexOf {feed : Feed} {i j : Nat} {first id : String}
    (hi : feed.anchor? = some (i, first)) (hj : feed.indexOf? id = some j) : i ≤ j := by
  obtain ⟨quiet, m, rest, hfeed, hlen, -, hnone⟩ := anchor?_eq_some hi
  obtain ⟨front, m', rest', hfeed', hlen', -, -⟩ := indexOf?_eq_some hj
  by_cases hle : i ≤ j
  · exact hle
  · have hget : quiet[j]? = some (.message m') := by
      rw [← List.getElem?_append_left (by omega), ← hfeed, hfeed', ← hlen']
      simp
    have hquiet := messages_eq_nil_iff.1 hnone _ (List.mem_of_getElem? hget)
    simp [Entry.isMessage] at hquiet

end Feed

namespace History

namespace Raw

theorem exists_lastPageIndex? {h : Raw} {m : Message} (hm : m ∈ messages h.lastPage) :
    ∃ i, h.lastPageIndex? m.id = some i := by
  have hmem : .message m ∈ h.lastPage.reverse := List.mem_reverse.2 (mem_messages.1 hm)
  cases hi : h.lastPage.reverse.findIdx? (fun e => e.id? == some m.id) with
  | none => simpa [Entry.id?] using List.findIdx?_eq_none_iff.1 hi _ hmem
  | some i => exact ⟨_, by rw [lastPageIndex?, lastIndex?, hi]; rfl⟩

theorem lastPageIndex?_eq_some {h : Raw} {i : Nat} {id : String}
    (hi : h.lastPageIndex? id = some i) :
    ∃ before m after, h.lastPage = before ++ .message m :: after ∧
      h.lastStart + before.length = i ∧ m.id = id := by
  rw [lastPageIndex?, Option.map_eq_some_iff] at hi
  obtain ⟨j, hj, rfl⟩ := hi
  obtain ⟨before, e, after, hsplit, hlen, hid, -⟩ := split_of_lastIndex? hj
  obtain ⟨m, rfl, hm⟩ := id?_eq_some_iff.1 (by simpa using hid)
  exact ⟨before, m, after, hsplit, by rw [hlen], hm⟩

/-- What an overlap says about the two sequences. -/
theorem overlap?_eq_some {h : Raw} {feed : Feed} {o : Overlap}
    (ho : h.overlap? feed = some o) :
    feed.anchor? = some (o.first, o.anchor) ∧ o.first ≤ o.last ∧
      ∃ newest, h.lastMessageId? = some newest ∧ feed.indexOf? newest = some o.last := by
  obtain ⟨newest, hnewest, ho⟩ := Option.bind_eq_some_iff.1 ho
  obtain ⟨⟨first, anchor⟩, hanchor, ho⟩ := Option.bind_eq_some_iff.1 ho
  obtain ⟨last, hlast, ho⟩ := Option.bind_eq_some_iff.1 ho
  split at ho
  · cases ho
  · next hle =>
    obtain rfl := Option.some.inj ho
    exact ⟨hanchor, Nat.le_of_not_lt hle, newest, hnewest, hlast⟩

/-! ## The shared part -/

theorem lastMessageId?_eq_map (h : Raw) :
    h.lastMessageId? = (messages h.entries).getLast?.map Message.id :=
  Timeline.lastMessageId?_eq _

/-- An overlap reaches from the feed's first message to the history's newest one, whose id stands in
the feed. -/
theorem ends_of_overlap? {h : Raw} {feed : Feed} {o : Overlap} (ho : h.overlap? feed = some o) :
    ∃ first newest, (messages feed.entries).head? = some first ∧ first.id = o.anchor ∧
      (messages h.entries).getLast? = some newest ∧
      ∃ m ∈ messages feed.entries, m.id = newest.id := by
  obtain ⟨hanchor, -, id, hid, hlast⟩ := overlap?_eq_some ho
  obtain ⟨quiet, first, rest, hfeed, -, hfirst, hnone⟩ := Feed.anchor?_eq_some hanchor
  obtain ⟨front, m, rest', hfeed', -, hm, -⟩ := Feed.indexOf?_eq_some hlast
  rw [lastMessageId?_eq_map, Option.map_eq_some_iff] at hid
  obtain ⟨newest, hnewest, hid⟩ := hid
  refine ⟨first, newest, ?_, hfirst, hnewest, m, by simp [hfeed'], hm.trans hid.symm⟩
  rw [hfeed, messages_append, hnone]
  rfl

/-- The shared part of the feed goes from its first message to the history's last one. -/
theorem overlap_entries {h : Raw} {feed : Feed} {o : Overlap}
    (ho : h.overlap? feed = some o) :
    (∃ m rest, o.entries feed = .message m :: rest ∧ m.id = o.anchor) ∧
      ∃ init m, o.entries feed = init ++ [.message m] ∧ h.lastMessageId? = some m.id := by
  obtain ⟨hanchor, hle, newest, hnewest, hlast⟩ := overlap?_eq_some ho
  obtain ⟨before, m, after, hsplit, hfirst, hm, -⟩ := Feed.anchor?_eq_some hanchor
  obtain ⟨before', m', after', hsplit', hlast', hm', -⟩ := Feed.indexOf?_eq_some hlast
  rw [hnewest, ← hm']
  constructor
  · refine ⟨m, after.take (o.last - o.first), ?_, hm⟩
    rw [Overlap.entries, hsplit, ← hfirst, List.drop_left, hfirst,
      show o.last + 1 - o.first = o.last - o.first + 1 by omega, List.take_succ_cons]
  · refine ⟨before'.drop o.first, m', ?_, rfl⟩
    have hlen : (before' ++ [Entry.message m']).length = o.last + 1 := by simp [hlast']
    rw [Overlap.entries, ← List.drop_take, hsplit', List.append_cons, ← hlen, List.take_left,
      List.drop_append_of_le_length (by omega)]

theorem messages_overlap_isInfix (o : Overlap) (feed : Feed) :
    messages (o.entries feed) <:+: messages feed.entries :=
  ((List.take_prefix _ _).isInfix.trans (List.drop_suffix _ _).isInfix).filterMap _

/-- The end of the history that is replaced holds the messages that replace it. -/
theorem messages_overlap {log : List Message} (hd : Distinct log) {h : Raw} {feed : Feed}
    (hh : messages h.entries <:+: log) (hf : messages feed.entries <:+: log) {o : Overlap}
    (ho : h.overlap? feed = some o) {before after : List Entry} {m : Message}
    (hsplit : h.lastPage = before ++ .message m :: after) (hm : m.id = o.anchor) :
    messages (.message m :: after) = messages (o.entries feed) := by
  obtain ⟨⟨m₁, rest, hhead, hm₁⟩, init, m₂, hend, hlast⟩ := overlap_entries ho
  have hentries : h.entries = h.entries.take h.lastStart ++ before ++ .message m :: after := by
    rw [List.append_assoc, ← hsplit, lastPage, List.take_append_drop]
  have hsuffix : messages (.message m :: after) <:+ messages h.entries := by
    rw [hentries, messages_append]
    exact List.suffix_append _ _
  refine eq_of_ends hd (hsuffix.isInfix.trans hh) ((messages_overlap_isInfix o feed).trans hf) ?_ ?_
  · rw [hhead, messages_message, messages_message, List.head?_cons, List.head?_cons,
      Option.map_some, Option.map_some, hm, hm₁]
  · rw [lastMessageId?_eq_map, hentries, messages_append, List.getLast?_append,
      messages_message, List.getLast?_cons, Option.some_or] at hlast
    rw [hend, messages_append, messages_message, messages_message, messages_nil,
      List.getLast?_concat, List.getLast?_cons, hlast]
    rfl

end Raw

/-! ## Another newest page -/

/-- The history with another newest page. -/
def withLastPage (h : History) (page : List Entry) : History :=
  ⟨h.toRaw.withLastPage page, Raw.isConsistent_withLastPage h.consistent page⟩

theorem pieces_withLastPage (h : History) (page : List Entry) :
    (h.withLastPage page).pieces = h.pieces.dropLast ++ [page] := by
  obtain ⟨init, last, hl, hstart, hend⟩ := Raw.lengths_eq_concat h.consistent
  have hfront : (h.entries.take h.lastStart).length = init.sum := by
    rw [List.length_take, hstart]
    omega
  show (h.lengths.dropLast ++ [page.length]).splitLengths (h.entries.take h.lastStart ++ page) = _
  rw [splitLengths_append, Raw.pieces, dropLast_splitLengths, hl, List.dropLast_concat,
    splitLengths_append_right _ _ hfront.ge, splitLengths_take _ _ hstart.le,
    List.drop_left' hfront, List.splitLengths_cons, List.splitLengths_nil, List.take_length]

theorem lastPage_withLastPage (h : History) (page : List Entry) :
    (h.withLastPage page).lastPage = page := by
  have hlast := (h.withLastPage page).lastPage_eq_getLast
  rw [pieces_withLastPage, List.getLast?_concat] at hlast
  exact (Option.some.inj hlast).symm

/-- To put the newest page in its own place changes nothing. -/
theorem withLastPage_self (h : History) : h.withLastPage h.lastPage = h := by
  obtain ⟨init, last, hl, -, hend⟩ := Raw.lengths_eq_concat h.consistent
  have hpage := h.lastStart_add_length
  have hlengths : h.lengths.dropLast ++ [h.lastPage.length] = h.lengths := by
    rw [hl, List.dropLast_concat, show h.lastPage.length = last by omega]
  have hentries : h.entries.take h.lastStart ++ h.lastPage = h.entries := List.take_append_drop _ _
  refine toRaw_inj.1 ?_
  show Raw.withLastPage h h.lastPage = h
  rw [Raw.withLastPage, hlengths, hentries]

theorem shortened_withLastPage (h : History) (page : List Entry) :
    Shortened h (h.withLastPage page) 0 := by
  refine ⟨rfl, ?_, rfl, by simp [withLastPage, Raw.withLastPage]⟩
  show (h.lengths.dropLast ++ [page.length]).length = h.lengths.length
  rw [List.length_append, List.length_dropLast, List.length_singleton,
    Nat.sub_add_cancel h.pages_pos]

/-! ## Alignments -/

/-- An alignment with the overlap `o` joins `h` to the feed: behind `before`, its newest page goes
on with the shared part. Then the front is trimmed. -/
structure Joins (h : History) (feed : Feed) (capacity : Nat) (o : Overlap) (before : List Entry) :
    Prop where
  overlap : h.overlap? feed = some o
  lastPage : ∃ m after, h.lastPage = before ++ .message m :: after ∧ m.id = o.anchor
  result : (h.align feed capacity).1 =
    ((h.withLastPage (before ++ o.entries feed)).trimFront capacity).1

/-- What an alignment makes of the overlap and of the place of its first message. -/
theorem align_of_lastPageIndex? {h : History} {feed : Feed} {o : Overlap}
    (ho : h.overlap? feed = some o) {before rest : List Entry}
    (hsplit : h.lastPage = before ++ rest)
    (hi : h.lastPageIndex? o.anchor = some (h.lastStart + before.length)) (capacity : Nat) :
    h.align feed capacity =
      (((h.withLastPage (before ++ o.entries feed)).trimFront capacity).1,
        .aligned (h.entries.length - (h.lastStart + before.length)) (o.last + 1 - o.first)) := by
  have hle : before.length ≤ h.lastPage.length := by simp [hsplit]
  have hjoined : h.toRaw.replaceTail (h.lastStart + before.length) (o.entries feed) =
      (h.withLastPage (before ++ o.entries feed)).toRaw := by
    rw [Raw.replaceTail_eq h.consistent hle, hsplit, List.take_left]
    rfl
  refine Prod.ext (toRaw_inj.1 ?_) ?_
  · simp only [align, Raw.align, ho, hi, hjoined]
    rfl
  · simp only [align, Raw.align, ho, hi]

/-- An alignment leaves the history alone or joins it to the feed. -/
theorem align_cases (h : History) (feed : Feed) (capacity : Nat) :
    ((h.align feed capacity).1 = h ∧
        ∀ removed inserted, (h.align feed capacity).2 ≠ .aligned removed inserted) ∨
      (∃ o before, Joins h feed capacity o before) ∧
        ∃ removed inserted, (h.align feed capacity).2 = .aligned removed inserted := by
  cases ho : h.overlap? feed with
  | none =>
    exact .inl ⟨toRaw_inj.1 (by simp [align, Raw.align, ho]), by simp [align, Raw.align, ho]⟩
  | some o =>
    cases hi : h.lastPageIndex? o.anchor with
    | none =>
      exact .inl ⟨toRaw_inj.1 (by simp [align, Raw.align, ho, hi]),
        by simp [align, Raw.align, ho, hi]⟩
    | some start =>
      obtain ⟨before, m, after, hsplit, rfl, hm⟩ := Raw.lastPageIndex?_eq_some hi
      have halign := align_of_lastPageIndex? ho hsplit hi capacity
      exact .inr ⟨⟨o, before, ho, ⟨m, after, hsplit, hm⟩, congrArg Prod.fst halign⟩, _, _,
        congrArg Prod.snd halign⟩

/-- Joined and trimmed, the history has lost the pages that the trim counts. -/
theorem shortened_trimmed (h : History) (page : List Entry) (capacity : Nat) :
    ((h.withLastPage page).trimFront capacity).2 ≤ h.spare ∧
      Shortened h ((h.withLastPage page).trimFront capacity).1
        ((h.withLastPage page).trimFront capacity).2 := by
  have hpage := h.shortened_withLastPage page
  obtain ⟨hspare, hshort, -⟩ := (h.withLastPage page).trimFront_spec capacity
  have hpages : (h.withLastPage page).lengths.length = h.lengths.length := hpage.pages
  rw [Raw.spare, hpages] at hspare
  exact ⟨hspare, hpage.trans_zero hshort⟩

/-- An alignment drops whole pages at the front, and never one of the last two. -/
theorem shortened_align (h : History) (feed : Feed) (capacity : Nat) :
    ∃ k ≤ h.spare, Shortened h (h.align feed capacity).1 k := by
  obtain ⟨heq, -⟩ | ⟨⟨o, before, hjoins⟩, -⟩ := align_cases h feed capacity
  · rw [heq]
    exact ⟨0, Nat.zero_le _, .refl h⟩
  · rw [hjoins.result]
    exact ⟨_, h.shortened_trimmed (before ++ o.entries feed) capacity⟩

/-- Trimming the front does not touch the newest page. -/
theorem lastPage_trimFront (h : History) (capacity : Nat) :
    (h.trimFront capacity).1.lastPage = h.lastPage := by
  obtain ⟨hspare, -, hpieces⟩ := h.trimFront_spec capacity
  have hlt : (h.trimFront capacity).2 < h.pieces.length := by
    rw [Raw.length_pieces]
    exact Nat.lt_of_le_of_lt hspare h.spare_lt
  have hlast := (h.trimFront capacity).1.lastPage_eq_getLast
  rw [hpieces, List.getLast?_drop, if_neg (Nat.not_le.2 hlt), lastPage_eq_getLast] at hlast
  exact (Option.some.inj hlast).symm

theorem lastPage_suffix (h : Raw) : h.lastPage <:+ h.entries := List.drop_suffix _ _

/-- A joined history ends with the shared part. -/
theorem Joins.suffix {h : History} {feed : Feed} {capacity : Nat} {o : Overlap}
    {before : List Entry} (hjoins : Joins h feed capacity o before) :
    o.entries feed <:+ (h.align feed capacity).1.entries := by
  have hend := lastPage_suffix (h.align feed capacity).1
  rw [hjoins.result, lastPage_trimFront, lastPage_withLastPage, ← hjoins.result] at hend
  exact (List.suffix_append _ _).trans hend

/-! ## What an alignment does to messages -/

section Log

variable {log : List Message} {h : History} {feed : Feed}

/-- An alignment takes place if and only if the feed's first message stands in the newest page and
the history's newest message stands in the feed. -/
theorem aligned_iff (hd : Distinct log) (hh : messages h.entries <:+: log)
    (hf : messages feed.entries <:+: log) (capacity : Nat) :
    (∃ removed inserted, (h.align feed capacity).2 = .aligned removed inserted) ↔
      ∃ first newest, (messages feed.entries).head? = some first ∧
        (messages h.entries).getLast? = some newest ∧
        first ∈ messages h.lastPage ∧ newest ∈ messages feed.entries := by
  have hpage : messages h.lastPage ⊆ messages h.entries :=
    ((List.drop_suffix _ _).filterMap _).subset
  constructor
  · rintro ⟨removed, inserted, hout⟩
    obtain ⟨-, hne⟩ | ⟨⟨o, before, hjoins⟩, -⟩ := align_cases h feed capacity
    · exact absurd hout (hne removed inserted)
    · obtain ⟨first, newest, hfirst, hid, hnewest, m', hmem', hid'⟩ :=
        Raw.ends_of_overlap? hjoins.overlap
      obtain ⟨m, after, hsplit, hm⟩ := hjoins.lastPage
      have hmem : m ∈ messages h.lastPage := by simp [hsplit]
      -- Two messages of the log with one id are the same.
      obtain rfl : first = m := hd.eq_of_id (hf.subset (List.mem_of_mem_head? hfirst))
        (hh.subset (hpage hmem)) (hid.trans hm.symm)
      obtain rfl : m' = newest := hd.eq_of_id (hf.subset hmem')
        (hh.subset (List.mem_of_mem_getLast? hnewest)) hid'
      exact ⟨first, m', hfirst, hnewest, hmem, hmem'⟩
  · rintro ⟨first, newest, hfirst, hnewest, hmem, hmem'⟩
    obtain ⟨i, hi⟩ := Feed.exists_anchor? hfirst
    obtain ⟨j, hj⟩ := Feed.exists_indexOf? hmem'
    obtain ⟨start, hstart⟩ := Raw.exists_lastPageIndex? hmem
    have hid : h.lastMessageId? = some newest.id := by
      rw [Raw.lastMessageId?_eq_map, hnewest, Option.map_some]
    have hle : ¬j < i := Nat.not_lt.2 (Feed.anchor_le_indexOf hi hj)
    have ho : h.overlap? feed = some ⟨i, first.id, j⟩ := by
      simp [Raw.overlap?, hid, hi, hj, hle]
    refine ⟨h.entries.length - start, j + 1 - i, ?_⟩
    simp only [align, Raw.align, ho, hstart]

/-- Joining a history to a feed of the same log changes no page's messages. -/
theorem messages_joined (hd : Distinct log) (hh : messages h.entries <:+: log)
    (hf : messages feed.entries <:+: log) {capacity : Nat} {o : Overlap} {before : List Entry}
    (hjoins : Joins h feed capacity o before) :
    (h.withLastPage (before ++ o.entries feed)).pieces.map messages = h.pieces.map messages := by
  obtain ⟨m, after, hsplit, hm⟩ := hjoins.lastPage
  have hlast : messages (before ++ o.entries feed) = messages h.lastPage := by
    rw [hsplit, messages_append, messages_append,
      Raw.messages_overlap hd hh hf hjoins.overlap hsplit hm]
  rw [pieces_withLastPage, List.map_append, List.map_singleton, hlast, ← List.map_singleton,
    ← List.map_append, ← pieces_eq_concat]

/-- **Alignment, page by page.** The `k` oldest pages go, and every other page keeps its
messages. -/
theorem align_spec (hd : Distinct log) (hh : messages h.entries <:+: log)
    (hf : messages feed.entries <:+: log) (capacity : Nat) :
    ∃ k < h.lengths.length, Shortened h (h.align feed capacity).1 k ∧
      (h.align feed capacity).1.pieces.map messages = (h.pieces.map messages).drop k := by
  obtain ⟨heq, -⟩ | ⟨⟨o, before, hjoins⟩, -⟩ := align_cases h feed capacity
  · rw [heq]
    exact ⟨0, h.pages_pos, .refl h, rfl⟩
  · obtain ⟨hspare, hshort⟩ := h.shortened_trimmed (before ++ o.entries feed) capacity
    obtain ⟨-, -, hpieces⟩ := (h.withLastPage (before ++ o.entries feed)).trimFront_spec capacity
    rw [hjoins.result]
    refine ⟨_, Nat.lt_of_le_of_lt hspare h.spare_lt, hshort, ?_⟩
    rw [hpieces, List.map_drop, messages_joined hd hh hf hjoins]

/-- What is left of the messages when whole pages go at the front. -/
theorem messages_eq_append {h' : History} {k : Nat}
    (hpieces : h'.pieces.map messages = (h.pieces.map messages).drop k) :
    messages h.entries = messages (h.pieces.take k).flatten ++ messages h'.entries := by
  calc messages h.entries =
        ((h.pieces.map messages).take k ++ (h.pieces.map messages).drop k).flatten := by
        rw [List.take_append_drop, ← messages_flatten, flatten_pieces]
    _ = messages (h.pieces.take k).flatten ++ messages h'.pieces.flatten := by
        rw [List.flatten_append, ← hpieces, messages_flatten, messages_flatten, List.map_take]
    _ = messages (h.pieces.take k).flatten ++ messages h'.entries := by rw [flatten_pieces]

/-- An alignment keeps the newest message, whatever the history holds before it. -/
theorem newest_align (hd : Distinct log) (hf : messages feed.entries ⊆ log) {newest : Message}
    (hnewest : (messages h.entries).getLast? = some newest) (hmem : newest ∈ log)
    (capacity : Nat) : (messages (h.align feed capacity).1.entries).getLast? = some newest := by
  obtain ⟨heq, -⟩ | ⟨⟨o, before, hjoins⟩, -⟩ := align_cases h feed capacity
  · rw [heq]
    exact hnewest
  · obtain ⟨front, hentries⟩ := hjoins.suffix
    obtain ⟨-, init, m, hend, hlast⟩ := Raw.overlap_entries hjoins.overlap
    rw [Raw.lastMessageId?_eq_map, hnewest, Option.map_some, Option.some.injEq] at hlast
    have hshared : messages (o.entries feed) ⊆ log :=
      List.Subset.trans (Raw.messages_overlap_isInfix o feed).subset hf
    have hm : m ∈ log := hshared (by simp [hend])
    obtain rfl := hd.eq_of_id hmem hm hlast
    rw [← hentries, hend, messages_append, messages_append, messages_message, messages_nil,
      ← List.append_assoc, List.getLast?_concat]

end Log

/-! ## The seam -/

/-- The entries before a message. -/
def preceding (id : String) (entries : List Entry) : List Entry :=
  entries.takeWhile fun e => e.id? != some id

/-- The entries from a message on. -/
def since (id : String) (entries : List Entry) : List Entry :=
  entries.dropWhile fun e => e.id? != some id

/-- The entries up to a message. -/
def upTo (id : String) (entries : List Entry) : List Entry :=
  entries.take (entries.findIdx (fun e => e.id? == some id) + 1)

theorem preceding_append {id : String} {front : List Entry}
    (hfront : ∀ e ∈ front, e.id? ≠ some id) {m : Message} (hm : m.id = id) (rest : List Entry) :
    preceding id (front ++ .message m :: rest) = front := by
  rw [preceding, List.takeWhile_append_of_pos (by simpa using hfront),
    List.takeWhile_cons_of_neg (by simp [Entry.id?, hm]), List.append_nil]

theorem since_append {id : String} {front : List Entry} (hfront : ∀ e ∈ front, e.id? ≠ some id)
    {m : Message} (hm : m.id = id) (rest : List Entry) :
    since id (front ++ .message m :: rest) = .message m :: rest := by
  rw [since, List.dropWhile_append_of_pos (by simpa using hfront),
    List.dropWhile_cons_of_neg (by simp [Entry.id?, hm])]

theorem upTo_append {id : String} {front : List Entry} (hfront : ∀ e ∈ front, e.id? ≠ some id)
    {m : Message} (hm : m.id = id) (rest : List Entry) :
    upTo id (front ++ .message m :: rest) = front ++ [.message m] := by
  have hidx : (front ++ .message m :: rest).findIdx (fun e => e.id? == some id) = front.length := by
    rw [List.findIdx_append, List.findIdx_eq_length_of_false (by simpa using hfront)]
    simp [List.findIdx_cons, Entry.id?, hm]
  rw [upTo, hidx, List.append_cons, show front.length + 1 = (front ++ [Entry.message m]).length by
    simp, List.take_left]

/-- The shared part, said without indices. -/
theorem overlap_eq_upTo_since {h : Raw} {feed : Feed} {o : Overlap}
    (ho : h.overlap? feed = some o) {newest : String} (hnewest : h.lastMessageId? = some newest) :
    o.entries feed = upTo newest (since o.anchor feed.entries) := by
  obtain ⟨hanchor, hle, newest', hnewest', hlast⟩ := Raw.overlap?_eq_some ho
  obtain rfl : newest' = newest := Option.some.inj (hnewest'.symm.trans hnewest)
  obtain ⟨before, m, after, hsplit, hfirst, hm, hnone⟩ := Feed.anchor?_eq_some hanchor
  obtain ⟨before', m', after', hsplit', hlast', hm', hbefore'⟩ := Feed.indexOf?_eq_some hlast
  have hnotice : ∀ e ∈ before, e.id? ≠ some o.anchor := by
    intro e he hid
    obtain ⟨x, rfl, -⟩ := id?_eq_some_iff.1 hid
    exact absurd (messages_eq_nil_iff.1 hnone _ he) (by simp [Entry.isMessage])
  have hsince : since o.anchor feed.entries = before'.drop o.first ++ .message m' :: after' := by
    rw [hsplit, since_append hnotice hm, ← List.drop_append_of_le_length (by omega), ← hsplit',
      hsplit, ← hfirst, List.drop_left]
  have hlen : (before'.drop o.first ++ [Entry.message m']).length = o.last + 1 - o.first := by
    simp [hlast']
    omega
  rw [hsince, upTo_append (fun e he => hbefore' e (List.mem_of_mem_drop he)) hm', Overlap.entries,
    hsplit', List.drop_append_of_le_length (by omega), List.append_cons, ← hlen, List.take_left]

section Log

variable {log : List Message} {h : History} {feed : Feed} {capacity : Nat} {o : Overlap}
  {before : List Entry}

/-- The history whose newest page goes on as the feed does, from the message `first` up to the
message `newest`. -/
def joinedAt (h : History) (feed : Feed) (first newest : Message) : History :=
  h.withLastPage
    (preceding first.id h.lastPage ++ upTo newest.id (since first.id feed.entries))

/-- What an alignment makes of `h`: it is joined to the feed, which changes no page's messages, and
then the trim drops the `k` oldest pages. Their messages are the ones that are gone. -/
structure Seamless (h : History) (feed : Feed) (capacity : Nat) (first newest : Message)
    (h' : History) (k : Nat) : Prop where
  joined : (h.joinedAt feed first newest).pieces.map messages = h.pieces.map messages
  trimmed : (h.joinedAt feed first newest).trimFront capacity = (h', k)
  oldest : h'.oldest = h.oldest + k
  pages : h'.lengths.length + k = h.lengths.length
  kept : messages h.entries = messages (h.pieces.take k).flatten ++ messages h'.entries
  ends : (messages h'.entries).getLast? = some newest
  /-- From the feed's first message on the history is the feed, notices included. -/
  seam : since first.id h'.entries = upTo newest.id (since first.id feed.entries)

/-- The first message of the shared part stands in the history once. -/
theorem Joins.preceding_eq (hd : Distinct log) (hh : messages h.entries <:+: log)
    (hjoins : Joins h feed capacity o before) : preceding o.anchor h.lastPage = before := by
  obtain ⟨m, after, hsplit, hm⟩ := hjoins.lastPage
  have hpage : messages h.lastPage <:+: log :=
    ((lastPage_suffix h).isInfix.filterMap _).trans hh
  rw [hsplit] at hpage ⊢
  exact preceding_append ((hd.sublist hpage.sublist).id?_ne_before hm) hm after

/-- The same holds of what an alignment leaves. -/
theorem Joins.since_eq (hd : Distinct log)
    (hleft : messages (h.align feed capacity).1.entries <:+: log)
    (hjoins : Joins h feed capacity o before) :
    since o.anchor (h.align feed capacity).1.entries = o.entries feed := by
  obtain ⟨front, hentries⟩ := hjoins.suffix
  obtain ⟨⟨m, rest, hhead, hm⟩, -⟩ := Raw.overlap_entries hjoins.overlap
  rw [← hentries, hhead] at hleft ⊢
  exact since_append ((hd.sublist hleft.sublist).id?_ne_before hm) hm rest

/-- An alignment that joins history and feed is seamless. -/
theorem Joins.seamless (hd : Distinct log) (hh : messages h.entries <:+: log)
    (hf : messages feed.entries <:+: log) (hjoins : Joins h feed capacity o before) :
    ∃ first newest k, (messages feed.entries).head? = some first ∧
      (messages h.entries).getLast? = some newest ∧
      Seamless h feed capacity first newest (h.align feed capacity).1 k := by
  obtain ⟨first, newest, hfirst, hid, hnewest, -⟩ := Raw.ends_of_overlap? hjoins.overlap
  have hlast : h.lastMessageId? = some newest.id := by
    rw [Raw.lastMessageId?_eq_map, hnewest, Option.map_some]
  have hshared : o.entries feed = upTo newest.id (since first.id feed.entries) := by
    rw [hid]
    exact overlap_eq_upTo_since hjoins.overlap hlast
  have hjoined : h.joinedAt feed first newest = h.withLastPage (before ++ o.entries feed) := by
    rw [joinedAt, hid, hjoins.preceding_eq hd hh, hshared, hid]
  have hpages := messages_joined hd hh hf hjoins
  obtain ⟨-, hshort⟩ := h.shortened_trimmed (before ++ o.entries feed) capacity
  obtain ⟨-, -, hpieces⟩ := (h.withLastPage (before ++ o.entries feed)).trimFront_spec capacity
  have hkept := messages_eq_append (h := h) (k := _) (by rw [hpieces, List.map_drop, hpages])
  rw [← hjoins.result] at hshort hkept
  have hleft : messages (h.align feed capacity).1.entries <:+: log := by
    rw [hkept] at hh
    exact (List.suffix_append _ _).isInfix.trans hh
  exact ⟨first, newest, _, hfirst, hnewest, {
    joined := hjoined ▸ hpages
    trimmed := by
      rw [hjoined, hjoins.result]
    oldest := hshort.oldest
    pages := hshort.pages
    kept := hkept
    ends := newest_align hd hf.subset hnewest
      (hh.subset (List.mem_of_mem_getLast? hnewest)) capacity
    seam := by
      rw [← hshared, hid]
      exact hjoins.since_eq hd hleft }⟩

/-- **The seam.** An alignment takes place where the newest page and the feed share the messages
from the feed's first one to the history's newest one. The history then goes on from the first of
these as the feed does, notices included, up to the last of them; and it loses exactly the messages
of the pages that the trim to the capacity drops. Otherwise the history stays as it is. -/
theorem align_seam {log : List Message} (hd : Distinct log) {h : History} {feed : Feed}
    (hh : messages h.entries <:+: log) (hf : messages feed.entries <:+: log) (capacity : Nat) :
    ((∃ removed inserted, (h.align feed capacity).2 = .aligned removed inserted) ↔
        ∃ first newest, (messages feed.entries).head? = some first ∧
          (messages h.entries).getLast? = some newest ∧
          first ∈ messages h.lastPage ∧ newest ∈ messages feed.entries) ∧
      ((∀ removed inserted, (h.align feed capacity).2 ≠ .aligned removed inserted) →
        (h.align feed capacity).1 = h) ∧
      ∀ removed inserted, (h.align feed capacity).2 = .aligned removed inserted →
        ∃ first newest k, (messages feed.entries).head? = some first ∧
          (messages h.entries).getLast? = some newest ∧
          Seamless h feed capacity first newest (h.align feed capacity).1 k := by
  refine ⟨aligned_iff hd hh hf capacity, ?_, ?_⟩
  · intro hnone
    obtain ⟨heq, -⟩ | ⟨-, removed, inserted, hout⟩ := align_cases h feed capacity
    · exact heq
    · exact absurd hout (hnone removed inserted)
  · intro removed inserted hout
    obtain ⟨-, hne⟩ | ⟨⟨o, before, hjoins⟩, -⟩ := align_cases h feed capacity
    · exact absurd hout (hne removed inserted)
    · exact hjoins.seamless hd hh hf

end Log

/-! ## Three pages and a feed that saw a notice -/

def sevenMessages : List Message :=
  ["m1", "m2", "m3", "m4", "m5", "m6", "m7"].map .ofId

def threePages : History :=
  ⟨⟨(sevenMessages.take 6).map .message, [2, 2, 2], 1, true, false⟩, rfl⟩

/-- A user joined between `m5` and `m6`. -/
def noticingFeed : Feed :=
  ⟨4, [.message (.ofId "m5"), .membership ⟨"bob", 0, true⟩, .message (.ofId "m6"),
    .message (.ofId "m7")]⟩

/-- A feed that reaches back beyond the newest page. -/
def longFeed : Feed := ⟨4, ["m4", "m5", "m6", "m7"].map (.message ∘ .ofId)⟩

/-- The notice comes in at the seam, and the oldest page goes for it, with `m1` and `m2`. A feed
that begins before the newest page changes nothing. -/
theorem align_seam_threePages :
    (threePages.align noticingFeed 6).2 = .aligned 2 3 ∧
      Seamless threePages noticingFeed 6 (.ofId "m5") (.ofId "m6")
        (threePages.align noticingFeed 6).1 1 ∧
      messages (threePages.pieces.take 1).flatten = ["m1", "m2"].map .ofId ∧
      (threePages.align longFeed 6).2 = .anchorOutsideLastPage ∧
      (threePages.align longFeed 6).1 = threePages := by
  have hd : Distinct sevenMessages := by decide
  have hh : messages threePages.entries <:+: sevenMessages := by decide
  have hf : messages noticingFeed.entries <:+: sevenMessages := by decide
  have hlong : messages longFeed.entries <:+: sevenMessages := by decide
  have hout : (threePages.align noticingFeed 6).2 = .aligned 2 3 := by decide
  have houtside : (threePages.align longFeed 6).2 = .anchorOutsideLastPage := by decide
  obtain ⟨first, newest, k, hfirst, hnewest, hseam⟩ := (align_seam hd hh hf 6).2.2 2 3 hout
  obtain rfl : Message.ofId "m5" = first := Option.some.inj hfirst
  obtain rfl : Message.ofId "m6" = newest := Option.some.inj hnewest
  obtain rfl : k = 1 := by
    have holdest : (threePages.align noticingFeed 6).1.oldest = 1 + 1 := by decide
    exact Nat.add_left_cancel (hseam.oldest.symm.trans holdest)
  refine ⟨hout, hseam, by decide, houtside, (align_seam hd hh hlong 6).2.1 ?_⟩
  intro removed inserted haligned
  rw [houtside] at haligned
  cases haligned

end History

end Timeline
