import Timeline.Feed
import Timeline.History.Trim

/-!
# Aligning history with the live feed

The end of a history and the start of a live feed hold the same messages, each with the notices
it happened to see. An alignment lets the history end as the feed begins: where the first message
of the feed stands in the newest page, the rest of the history is replaced by the feed's entries
from that message up to the history's last message.

`History.Raw.overlapsFrom` asks how far the feed has moved on: whether the history's last message
stands in the feed at a given index or later.

The replaced end lies in the newest page, so an alignment leads from one consistent state to another
(`isConsistent_align`).
-/

namespace Timeline

/-- What an alignment did. -/
inductive Alignment
  /-- The history's last message is not in the feed. -/
  | noOverlap
  /-- The feed's first message is not in the history's newest page. -/
  | anchorOutsideLastPage
  /-- The numbers of entries taken out of the history and put in from the feed. -/
  | aligned (removed inserted : Nat)
  deriving DecidableEq, Repr

/-- The last index at which `p` holds. -/
def lastIndex? {α : Type} (p : α → Bool) (xs : List α) : Option Nat :=
  (xs.reverse.findIdx? p).map fun i => xs.length - 1 - i

/-- The part of a feed that it shares with a history. -/
structure Overlap where
  /-- The index of the feed's first message. -/
  first : Nat
  /-- The id of the feed's first message. -/
  anchor : String
  /-- The index in the feed of the history's last message. -/
  last : Nat
  deriving DecidableEq, Repr

/-- The shared entries of the feed. -/
def Overlap.entries (o : Overlap) (feed : Feed) : List Entry :=
  (feed.entries.drop o.first).take (o.last + 1 - o.first)

namespace History

namespace Raw

def overlap? (h : Raw) (feed : Feed) : Option Overlap := do
  let newest ← h.lastMessageId?
  let (first, anchor) ← feed.anchor?
  let last ← feed.indexOf? newest
  if last < first then none else some ⟨first, anchor, last⟩

/-- The last index at which a message of the newest page has the given id. -/
def lastPageIndex? (h : Raw) (id : String) : Option Nat :=
  (lastIndex? (fun e => e.id? == some id) h.lastPage).map (h.lastStart + ·)

/-- Replace the entries from index `start` on, which lies in the newest page. -/
def replaceTail (h : Raw) (start : Nat) (tail : List Entry) : Raw :=
  let removed := h.entries.length - start
  { h with
    entries := h.entries.take start ++ tail
    lengths := h.lengths.modify (h.lengths.length - 1) fun n => n + tail.length - removed }

/-- Let the history end with the entries that it shares with the feed, and trim its front. -/
def align (h : Raw) (feed : Feed) (capacity : Nat) : Raw × Alignment :=
  match h.overlap? feed with
  | none => (h, .noOverlap)
  | some o =>
    match h.lastPageIndex? o.anchor with
    | none => (h, .anchorOutsideLastPage)
    | some start =>
      let joined := h.replaceTail start (o.entries feed)
      ((joined.trimFront capacity).1,
        .aligned (h.entries.length - start) (o.last + 1 - o.first))

/-- The history's last message stands in the feed at index `threshold` or later. -/
def overlapsFrom (h : Raw) (feed : Feed) (threshold : Nat) : Bool :=
  match h.lastMessageId? with
  | none => false
  | some id => (feed.entries.drop threshold).any fun e => e.id? == some id

/-! ## Consistency -/

theorem exists_offset_of_lastPageIndex? {h : Raw} {id : String} {start : Nat}
    (hstart : h.lastPageIndex? id = some start) :
    ∃ offset < h.lastPage.length, start = h.lastStart + offset := by
  obtain ⟨offset, hoffset, rfl⟩ := Option.map_eq_some_iff.1 hstart
  obtain ⟨i, hi, rfl⟩ := Option.map_eq_some_iff.1 hoffset
  have hlt := (List.findIdx?_eq_some_iff_getElem.1 hi).1
  rw [List.length_reverse] at hlt
  exact ⟨_, by omega, rfl⟩

/-- The state with another newest page. -/
def withLastPage (h : Raw) (page : List Entry) : Raw :=
  { h with
    entries := h.entries.take h.lastStart ++ page
    lengths := h.lengths.dropLast ++ [page.length] }

theorem isConsistent_withLastPage {h : Raw} (hc : h.isConsistent = true) (page : List Entry) :
    (h.withLastPage page).isConsistent = true := by
  obtain ⟨init, last, hl, hstart, hend⟩ := lengths_eq_concat hc
  rw [isConsistent_iff, withLastPage, hl, List.dropLast_concat]
  refine ⟨by simp, ?_⟩
  rw [List.sum_append, List.sum_singleton, List.length_append, List.length_take]
  omega

/-- The newest page keeps what is before the replaced entries, and its length is mended. -/
theorem replaceTail_eq {h : Raw} (hc : h.isConsistent = true) {offset : Nat}
    (hle : offset ≤ h.lastPage.length) (tail : List Entry) :
    h.replaceTail (h.lastStart + offset) tail =
      h.withLastPage (h.lastPage.take offset ++ tail) := by
  obtain ⟨init, last, hl, -, hend⟩ := lengths_eq_concat hc
  have hpage : (h.lastPage.take offset).length = offset := List.length_take_of_le hle
  rw [lastPage, List.length_drop] at hle
  have hlengths : (h.lengths.modify (h.lengths.length - 1) fun n =>
      n + tail.length - (h.entries.length - (h.lastStart + offset))) =
        h.lengths.dropLast ++ [(h.lastPage.take offset ++ tail).length] := by
    rw [hl, List.dropLast_concat, List.length_append, List.length_singleton, Nat.add_sub_cancel,
      List.modify_eq_take_cons_drop (by simp), List.take_left, List.getElem_concat_length rfl,
      List.drop_of_length_le (by simp), List.length_append, hpage]
    congr 2
    omega
  rw [replaceTail, withLastPage, hlengths, List.take_add, ← lastPage, List.append_assoc]

theorem isConsistent_align {h : Raw} (hc : h.isConsistent = true) (feed : Feed) (capacity : Nat) :
    (h.align feed capacity).1.isConsistent = true := by
  cases ho : h.overlap? feed with
  | none => simpa [align, ho] using hc
  | some o =>
    cases hi : h.lastPageIndex? o.anchor with
    | none => simpa [align, ho, hi] using hc
    | some start =>
      obtain ⟨offset, hlt, rfl⟩ := exists_offset_of_lastPageIndex? hi
      simp only [align, ho, hi, replaceTail_eq hc (Nat.le_of_lt hlt)]
      exact isConsistent_trimFront (isConsistent_withLastPage hc _) capacity

end Raw

/-- Let the history end with the entries that it shares with the feed, and trim its front. -/
def align (h : History) (feed : Feed) (capacity : Nat) : History × Alignment :=
  (⟨(h.toRaw.align feed capacity).1, Raw.isConsistent_align h.consistent feed capacity⟩,
    (h.toRaw.align feed capacity).2)

end History

end Timeline
