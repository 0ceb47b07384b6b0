import Timeline.Proofs.Places

/-!
# Aligning twice

An alignment changes what the next one looks at: the end of the newest page, its length, and which
pages are loaded at all. The places of the seam nevertheless stay where they are.

**The newest message.** The shared part of the feed ends with a message that has the id of the
history's newest one, so a second alignment looks for the same id (`lastMessageId?_align`).

**The place in the newest page.** The newest page ends with the shared part, which begins with the
feed's first message. If the id of that message occurs only once in the feed, no later entry of the
page has it, and the search from the end comes back to the same place (`seamAt_align`).

Main statement: `align_again`, an alignment right after another with the same feed and capacity puts
every entry in its own place.
-/

namespace Timeline

/-- What an alignment answers right after one that had the given outcome. -/
def Alignment.again : Alignment → Alignment
  | .aligned _ inserted => .aligned inserted inserted
  | outcome => outcome

/-- The id of the feed's first message occurs only once. -/
def Feed.FirstOnce (feed : Feed) : Prop :=
  ∀ m, (messages feed.entries).head? = some m → feed.entries.countP (Entry.carries m.id) = 1

namespace History

variable {h : History} {feed : Feed} {first last offset : Nat}

/-! ## The shared part -/

/-- The shared part begins with the feed's first message; if its id occurs only once, nothing behind
it carries that id. -/
theorem SeamAt.shared_eq_cons (hs : SeamAt h feed first last offset) (honce : feed.FirstOnce) :
    ∃ m rest, shared feed first last = .message m :: rest ∧
      feed.entries[first]? = some (.message m) ∧ ∀ e ∈ rest, e.carries m.id = false := by
  have hle := hs.first_le
  obtain ⟨m, hget, -⟩ := hs.place
  obtain ⟨quiet, e, after, hsplit, rfl, -, hquiet⟩ := hs.head
  obtain rfl : e = .message m := by simpa [hsplit] using hget
  have hhead : (messages feed.entries).head? = some m := by
    rw [hsplit, messages_append, messages_eq_nil_iff.2 hquiet]
    rfl
  -- The first message is the one entry that carries its id.
  have hcount := honce m hhead
  rw [hsplit, List.countP_append, List.countP_cons_of_pos (by simp [Entry.carries, Entry.id?])]
    at hcount
  have hafter : ∀ e ∈ after, ¬e.carries m.id = true :=
    List.countP_eq_zero.1 (by omega)
  refine ⟨m, after.take (last - quiet.length), ?_, hget, ?_⟩
  · rw [shared, List.drop_take, hsplit, List.drop_left,
      show last + 1 - quiet.length = last - quiet.length + 1 by omega, List.take_succ_cons]
  · intro e he
    simpa using hafter e (List.mem_of_mem_take he)

/-- The shared part ends with a message that has the id of the history's newest one. -/
theorem SeamAt.shared_eq_concat (hs : SeamAt h feed first last offset) :
    ∃ init m, shared feed first last = init ++ [.message m] ∧ h.lastMessageId? = some m.id := by
  obtain ⟨id, ho, -⟩ := seamAt_iff.1 hs
  obtain ⟨-, init, m, hend, hnewest⟩ := Raw.overlap_entries ho
  rw [overlap_entries_eq_shared] at hend
  exact ⟨init, m, hend, hnewest⟩

/-! ## The places of the second alignment -/

/-- An alignment keeps the id of the newest message, whatever ids occur more than once. -/
theorem lastMessageId?_align (h : History) (feed : Feed) (capacity : Nat) :
    (h.align feed capacity).1.lastMessageId? = h.lastMessageId? := by
  obtain ⟨first, last, offset, hs⟩ | ⟨-, hsame⟩ := seamAt_or_same h feed capacity
  · obtain ⟨front, hentries⟩ := (alignedAt_of_seamAt hs capacity).suffix
    obtain ⟨init, m, hend, hnewest⟩ := hs.shared_eq_concat
    rw [hnewest, Raw.lastMessageId?_eq_map, ← hentries, hend, messages_append, messages_append,
      messages_message, messages_nil, ← List.append_assoc, List.getLast?_concat]
    rfl
  · rw [hsame]

/-- The places of the seam stay where they are. -/
theorem seamAt_align (hs : SeamAt h feed first last offset) (honce : feed.FirstOnce)
    (capacity : Nat) :
    SeamAt (h.align feed capacity).1 feed first last offset where
  head := hs.head
  newest := by
    obtain ⟨m, hm, hlast⟩ := hs.newest
    have hid := lastMessageId?_align h feed capacity
    rw [Raw.lastMessageId?_eq_map, Raw.lastMessageId?_eq_map, hm, Option.map_some,
      Option.map_eq_some_iff] at hid
    obtain ⟨m', hm', hid⟩ := hid
    exact ⟨m', hm', hid ▸ hlast⟩
  place := by
    obtain ⟨m, rest, hshared, hget, hrest⟩ := hs.shared_eq_cons honce
    have hpage := (alignedAt_of_seamAt hs capacity).lastPage
    rw [hshared] at hpage
    exact ⟨m, hget, _, _, rest, hpage, List.length_take_of_le (Nat.le_of_lt hs.offset_lt),
      Entry.carries_eq_true_iff.2 rfl, hrest⟩

/-! ## The second alignment -/

/-- **Aligning twice.** Right after an alignment, another one with the same feed and capacity leaves
the whole history as it is. It answers as the first did; if that one put entries in, the second
takes out as many and puts them in again. -/
theorem align_again (h : History) (honce : feed.FirstOnce) (capacity : Nat) :
    (h.align feed capacity).1.align feed capacity =
      ((h.align feed capacity).1, (h.align feed capacity).2.again) := by
  obtain ⟨first, last, offset, hs⟩ | ⟨hnone, hsame⟩ := seamAt_or_same h feed capacity
  · have halign := alignedAt_of_seamAt hs capacity
    have hoffset := List.length_take_of_le (Nat.le_of_lt hs.offset_lt)
    -- What is put in is what stands there already.
    have hself : (h.align feed capacity).1.joinAt offset (shared feed first last) =
        (h.align feed capacity).1 := by
      rw [joinAt, halign.lastPage, List.take_left' hoffset, ← halign.lastPage, withLastPage_self]
    have hplace := (h.align feed capacity).1.lastStart_add_length
    rw [halign.lastPage, List.length_append, hoffset, hs.length_shared] at hplace
    have houtcome : (h.align feed capacity).1.entries.length -
        ((h.align feed capacity).1.lastStart + offset) = last + 1 - first := by omega
    -- The history is trimmed already.
    have hagain := ((h.joinAt offset (shared feed first last)).trimmedFront capacity).again
    rw [← halign.trimmed] at hagain
    rw [align_of_seamAt (seamAt_align hs honce capacity), hself, houtcome, hagain,
      align_of_seamAt hs]
    rfl
  · have houtcome : (h.align feed capacity).2.again = (h.align feed capacity).2 := by
      rcases hnone with hnone | hnone <;> rw [hnone] <;> rfl
    rw [hsame, houtcome]
    exact Prod.ext hsame rfl

/-- The first alignment takes two entries out and three in, and trims the front. The second takes
out the three and puts them in again. -/
theorem align_again_repeating :
    repeatingFeed.FirstOnce ∧
      (repeatingPages.align repeatingFeed 7).2 = .aligned 2 3 ∧
      (repeatingPages.align repeatingFeed 7).1.align repeatingFeed 7 =
        ((repeatingPages.align repeatingFeed 7).1, .aligned 3 3) := by
  have honce : repeatingFeed.FirstOnce := by
    intro m hm
    obtain rfl : Message.ofId "m3" = m := Option.some.inj hm
    decide
  have houtcome : (repeatingPages.align repeatingFeed 7).2 = .aligned 2 3 := by decide
  have hagain := align_again repeatingPages honce 7
  rw [houtcome] at hagain
  exact ⟨honce, houtcome, hagain⟩

end History

end Timeline
