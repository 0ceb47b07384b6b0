import Timeline.Page

/-!
# Loaded history

**The state** (`History.Raw`). A run of consecutive pages, joined to one list of entries; `lengths`
tells how many entries came from each page. The pages are numbered from `oldest` on. Two marks
tell whether the history ends at the present and whether it starts at the beginning of the
conversation.

**Consistency** (`History`). There is a page, and the lengths account for every entry. A `History`
is a state together with the proof of this. What changes a history is written for states, and comes
with a proof that it keeps them consistent.

**Numbers.** Page numbers and lengths are natural numbers without a bound. A machine keeps them in
64 bits, and all that occur, `newer` among them, are taken to stay within these.
-/

namespace Timeline

/-- The zero from which sums of lengths start. Where more algebra is imported, instance search would
find another one. -/
abbrev natZero : Zero Nat := ⟨0⟩

attribute [local instance] natZero

/-- Consecutive pages of history, oldest first. -/
structure History.Raw where
  entries : List Entry
  /-- The number of entries from each page. -/
  lengths : List Nat
  /-- The number of the oldest page. -/
  oldest : Nat
  /-- The live stream goes on where the history ends. -/
  atPresent : Bool
  /-- The oldest page was marked as the beginning of the conversation. -/
  atBeginning : Bool
  deriving DecidableEq, Repr

namespace History.Raw

/-- The state after a first page. -/
def ofPage (p : Page) : Raw := ⟨p.entries, [p.size], p.number, p.isNewest, p.isBeginning⟩

/-! ## Its ends -/

/-- The number of the page before the oldest one, if there is one. -/
def older? (h : Raw) : Option Nat :=
  if h.atBeginning || h.oldest == 0 then none else some (h.oldest - 1)

/-- The number of the page after the newest one. -/
def newer (h : Raw) : Nat := h.oldest + h.lengths.length

def startsAtBeginning (h : Raw) : Bool := h.older?.isNone

def lastLength (h : Raw) : Nat := h.lengths.getLastD 0

/-- The index at which the newest page starts. -/
def lastStart (h : Raw) : Nat := h.entries.length - h.lastLength

/-- The entries of the newest page. -/
def lastPage (h : Raw) : List Entry := h.entries.drop h.lastStart

def lastMessageId? (h : Raw) : Option String := Timeline.lastMessageId? h.entries

theorem lastStart_add_length (h : Raw) : h.lastStart + h.lastPage.length = h.entries.length := by
  rw [lastPage, List.length_drop, lastStart]
  omega

/-! ## Consistency -/

/-- There is a page, and the lengths account for every entry. -/
def isConsistent (h : Raw) : Bool := !h.lengths.isEmpty && h.lengths.sum == h.entries.length

theorem isConsistent_iff {h : Raw} :
    h.isConsistent = true ↔ h.lengths ≠ [] ∧ h.lengths.sum = h.entries.length := by
  simp [isConsistent]

theorem isConsistent_ofPage (p : Page) : (ofPage p).isConsistent = true := by
  simp [isConsistent, ofPage, Page.size]

/-- The newest page is as long as the last length says. -/
theorem lengths_eq_concat {h : Raw} (hc : h.isConsistent = true) :
    ∃ init last, h.lengths = init ++ [last] ∧ init.sum = h.lastStart ∧
      h.lastStart + last = h.entries.length := by
  obtain ⟨hne, hsum⟩ := isConsistent_iff.1 hc
  obtain ⟨init, last, hl⟩ := (List.eq_nil_or_concat h.lengths).resolve_left hne
  rw [List.concat_eq_append] at hl
  have hlast : h.lastLength = last := by rw [lastLength, hl, List.getLastD_concat]
  rw [hl, List.sum_append, List.sum_singleton] at hsum
  refine ⟨init, last, hl, ?_, ?_⟩ <;> rw [lastStart, hlast] <;> omega

end History.Raw

/-- A consistent state: there is a page, and the lengths account for every entry. -/
structure History extends History.Raw where
  consistent : toRaw.isConsistent = true
  deriving DecidableEq, Repr

namespace History

instance : Coe History Raw := ⟨toRaw⟩

theorem toRaw_inj {h h' : History} : h.toRaw = h'.toRaw ↔ h = h' := by
  cases h
  cases h'
  simp

/-- A history of one page. -/
def ofPage (p : Page) : History := ⟨.ofPage p, Raw.isConsistent_ofPage p⟩

theorem lengths_ne_nil (h : History) : h.lengths ≠ [] := (Raw.isConsistent_iff.1 h.consistent).1

theorem sum_lengths (h : History) : h.lengths.sum = h.entries.length :=
  (Raw.isConsistent_iff.1 h.consistent).2

theorem pages_pos (h : History) : 0 < h.lengths.length := List.length_pos_iff.2 h.lengths_ne_nil

end History

end Timeline
