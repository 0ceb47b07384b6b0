import Timeline.Proofs.Capacity

/-!
# Changes that check their arithmetic

The changes of a history subtract lengths and cut the entries at an index. Here they are written
once more so that each of these steps is checked: a difference below zero (`sub?`) or a cut beyond
the end (`take?`, `drop?`) gives `none`. They are made on states that need not be consistent, as
nothing is known of a state between two checks.

**No check fails.** The lengths of a history account for every entry, so a page is never longer than
the history, and an index in the newest page never lies behind it. The checked changes therefore are
the changes themselves (`change?_eq_some`).

Main statement: `changeAll_safe`, which says over all changes of a history, and over all runs of a
conversation, that no check fails and the capacity is kept.
-/

namespace Timeline

/-! ## Checked steps -/

/-- A difference that is not below zero. -/
def sub? (n m : Nat) : Option Nat := if m ≤ n then some (n - m) else none

/-- The first `n` entries, of no fewer. -/
def take? (n : Nat) (xs : List Entry) : Option (List Entry) :=
  if n ≤ xs.length then some (xs.take n) else none

/-- The entries behind the first `n`, of no fewer. -/
def drop? (n : Nat) (xs : List Entry) : Option (List Entry) :=
  if n ≤ xs.length then some (xs.drop n) else none

@[simp] theorem sub?_eq_some {n m : Nat} (h : m ≤ n) : sub? n m = some (n - m) := if_pos h

@[simp] theorem take?_eq_some {n : Nat} {xs : List Entry} (h : n ≤ xs.length) :
    take? n xs = some (xs.take n) :=
  if_pos h

@[simp] theorem drop?_eq_some {n : Nat} {xs : List Entry} (h : n ≤ xs.length) :
    drop? n xs = some (xs.drop n) :=
  if_pos h

namespace History

namespace Raw

/-! ## Checked changes -/

def lastStart? (h : Raw) : Option Nat := sub? h.entries.length h.lastLength

def dropFront? (h : Raw) : Option Raw := do
  let entries ← drop? (h.lengths.headD 0) h.entries
  some { h with
    entries := entries
    lengths := h.lengths.tail
    oldest := h.oldest + 1
    atBeginning := false }

def dropBack? (h : Raw) : Option Raw := do
  let keep ← sub? h.entries.length h.lastLength
  let entries ← take? keep h.entries
  some { h with entries := entries, lengths := h.lengths.dropLast }

def trimBy? (drop : Raw → Option Raw) (capacity : Nat) :
    Nat → Raw → Option (Raw × Nat)
  | 0, h => some (h, 0)
  | spare + 1, h =>
    if capacity < h.entries.length then do
      let shorter ← drop h
      let (trimmed, dropped) ← trimBy? drop capacity spare shorter
      some (trimmed, dropped + 1)
    else some (h, 0)

def trimFront? (h : Raw) (capacity : Nat) : Option (Raw × Nat) :=
  trimBy? dropFront? capacity h.spare h

def trimBack? (h : Raw) (capacity : Nat) : Option (Raw × Nat) :=
  trimBy? dropBack? capacity h.spare h

def pushFront? (h : Raw) (p : Page) (capacity : Nat) : Option Raw := do
  let (trimmed, dropped) ← (h.joinFront p).trimBack? capacity
  some { trimmed with atPresent := trimmed.atPresent && dropped == 0 }

def pushBack? (h : Raw) (p : Page) (capacity : Nat) : Option Raw := do
  let (trimmed, _) ← (h.joinBack p).trimFront? capacity
  some trimmed

/-- The length of the newest page is mended by what came in and what went out. -/
def replaceTail? (h : Raw) (start : Nat) (tail : List Entry) : Option Raw := do
  let removed ← sub? h.entries.length start
  let front ← take? start h.entries
  let added ← sub? (front ++ tail).length front.length
  match h.lengths.getLast? with
  | none => some { h with entries := front ++ tail }
  | some last =>
    let mended ← sub? (last + added) removed
    some { h with entries := front ++ tail, lengths := h.lengths.dropLast ++ [mended] }

def align? (h : Raw) (feed : Feed) (capacity : Nat) : Option (Raw × Alignment) :=
  match h.overlap? feed with
  | none => some (h, .noOverlap)
  | some o => do
    let first ← h.lastStart?
    match lastIndex? (fun e => e.id? == some o.anchor) (h.entries.drop first) with
    | none => some (h, .anchorOutsideLastPage)
    | some offset =>
      let removed ← sub? h.entries.length (first + offset)
      let inserted ← sub? (o.last + 1) o.first
      let joined ← h.replaceTail? (first + offset) ((feed.entries.drop o.first).take inserted)
      let (trimmed, _) ← joined.trimFront? capacity
      some (trimmed, .aligned removed inserted)

def change? (h : Raw) : Change → Option Raw
  | .pushFront p capacity => h.pushFront? p capacity
  | .pushBack p capacity => h.pushBack? p capacity
  | .trimFront capacity => (h.trimFront? capacity).map Prod.fst
  | .trimBack capacity => (h.trimBack? capacity).map Prod.fst
  | .align feed capacity => (h.align? feed capacity).map Prod.fst

def changeAll? (h : Raw) (changes : List Change) : Option Raw := changes.foldlM change? h

/-! ## No check fails -/

section Sum

variable {h : Raw} (hsum : h.lengths.sum = h.entries.length)
include hsum

theorem headD_le : h.lengths.headD 0 ≤ h.entries.length := by
  rw [← hsum]
  cases h.lengths with
  | nil => exact Nat.le_refl _
  | cons n lengths => exact Nat.le_add_right _ _

theorem lastLength_le : h.lastLength ≤ h.entries.length := by
  rw [← hsum, lastLength]
  rcases List.eq_nil_or_concat h.lengths with hnil | ⟨init, last, hlast⟩
  · simp [hnil]
  · rw [hlast, List.concat_eq_append, List.getLastD_concat, List.sum_append, List.sum_singleton]
    omega

theorem lastStart?_eq_some : h.lastStart? = some h.lastStart := sub?_eq_some (lastLength_le hsum)

theorem dropFront?_eq_some : h.dropFront? = some h.dropFront := by
  rw [dropFront?, drop?_eq_some (headD_le hsum)]
  rfl

theorem dropBack?_eq_some : h.dropBack? = some h.dropBack := by
  rw [dropBack?, sub?_eq_some (lastLength_le hsum)]
  show (do let entries ← take? (h.entries.length - h.lastLength) h.entries; _) = _
  rw [take?_eq_some (Nat.sub_le _ _)]
  rfl

/-- A trim drops pages of a state whose lengths account for every entry. -/
theorem trimBy?_eq_some {drop : Raw → Raw} {drop? : Raw → Option Raw}
    (hdrop : ∀ h : Raw, h.lengths.sum = h.entries.length → drop? h = some (drop h))
    (hkeeps : ∀ h : Raw, h.lengths.sum = h.entries.length →
      (drop h).lengths.sum = (drop h).entries.length)
    (capacity spare : Nat) :
    trimBy? drop? capacity spare h = some (trimBy drop capacity spare h) := by
  induction spare generalizing h with
  | zero => rfl
  | succ spare ih =>
    rw [trimBy?, trimBy]
    split
    · rw [hdrop h hsum, Option.bind_eq_bind, Option.bind_some, ih (hkeeps h hsum)]
      rfl
    · rfl

theorem trimFront?_eq_some (capacity : Nat) :
    h.trimFront? capacity = some (h.trimFront capacity) :=
  trimBy?_eq_some hsum (fun _ => dropFront?_eq_some) (fun _ => sum_dropFront) capacity h.spare

theorem trimBack?_eq_some (capacity : Nat) : h.trimBack? capacity = some (h.trimBack capacity) :=
  trimBy?_eq_some hsum (fun _ => dropBack?_eq_some) (fun _ => sum_dropBack) capacity h.spare

end Sum

/-- What is replaced lies in the newest page. -/
theorem replaceTail?_eq_some {h : Raw} (hc : h.isConsistent = true) {offset : Nat}
    (hle : offset ≤ h.lastPage.length) (tail : List Entry) :
    h.replaceTail? (h.lastStart + offset) tail =
      some (h.replaceTail (h.lastStart + offset) tail) := by
  obtain ⟨init, last, hl, -, hend⟩ := lengths_eq_concat hc
  have hpage := h.lastStart_add_length
  have hstart : h.lastStart + offset ≤ h.entries.length := by omega
  have hremoved : sub? h.entries.length (h.lastStart + offset) = some (last - offset) := by
    rw [sub?_eq_some hstart]
    congr 1
    omega
  have hadded : sub? (h.entries.take (h.lastStart + offset) ++ tail).length
      (h.entries.take (h.lastStart + offset)).length = some tail.length := by
    rw [List.length_append, sub?_eq_some (Nat.le_add_right _ _), Nat.add_sub_cancel_left]
  -- What goes out is part of the newest page, so its length is not undercut.
  have hmended : sub? (last + tail.length) (last - offset) = some (offset + tail.length) := by
    rw [sub?_eq_some (by omega)]
    congr 1
    omega
  rw [replaceTail?, hremoved, take?_eq_some hstart]
  simp only [Option.bind_eq_bind, Option.bind_some]
  rw [hadded, hl, List.getLast?_concat]
  simp only [Option.bind_some]
  rw [hmended, Option.bind_some, ← hl, replaceTail_eq hc hle, withLastPage, List.length_append,
    List.length_take_of_le hle, List.take_add, ← lastPage, List.append_assoc]

theorem align?_eq_some {h : Raw} (hc : h.isConsistent = true) (feed : Feed) (capacity : Nat) :
    h.align? feed capacity = some (h.align feed capacity) := by
  rw [align?, align]
  cases ho : h.overlap? feed with
  | none => rfl
  | some o =>
    obtain ⟨-, hle, -⟩ := overlap?_eq_some ho
    simp only [lastStart?_eq_some (isConsistent_iff.1 hc).2, Option.bind_eq_bind, Option.bind_some]
    rw [← lastPage]
    cases hi : lastIndex? (fun e => e.id? == some o.anchor) h.lastPage with
    | none => simp [lastPageIndex?, hi]
    | some offset =>
      have hindex : h.lastPageIndex? o.anchor = some (h.lastStart + offset) := by
        rw [lastPageIndex?, hi]
        rfl
      obtain ⟨before, e, after, hsplit, hlength, -, -⟩ := split_of_lastIndex? hi
      have hoffset : offset ≤ h.lastPage.length := by
        rw [hsplit, List.length_append, hlength]
        omega
      have hstart : h.lastStart + offset ≤ h.entries.length := by
        rw [← lastStart_add_length]
        exact Nat.add_le_add_left hoffset _
      have hjoined := isConsistent_withLastPage hc (h.lastPage.take offset ++ o.entries feed)
      rw [← replaceTail_eq hc hoffset] at hjoined
      simp only [hindex]
      rw [sub?_eq_some hstart, Option.bind_some, sub?_eq_some (by omega), Option.bind_some,
        ← Overlap.entries, replaceTail?_eq_some hc hoffset, Option.bind_some,
        trimFront?_eq_some (isConsistent_iff.1 hjoined).2, Option.bind_some]

end Raw

theorem pushFront?_eq_some (h : History) (p : Page) (capacity : Nat) :
    h.pushFront? p capacity = some (h.pushFront p capacity).toRaw := by
  have htrim := Raw.trimBack?_eq_some (h.joinFront p).sum_lengths capacity
  show (do let (trimmed, dropped) ← (h.joinFront p).trimBack? capacity; _) = _
  rw [htrim]
  rfl

theorem pushBack?_eq_some (h : History) (p : Page) (capacity : Nat) :
    h.pushBack? p capacity = some (h.pushBack p capacity).toRaw := by
  have htrim := Raw.trimFront?_eq_some (h.joinBack p).sum_lengths capacity
  show (do let (trimmed, _) ← (h.joinBack p).trimFront? capacity; _) = _
  rw [htrim]
  rfl

/-- The checked changes of a history are its changes. -/
theorem change?_eq_some (h : History) (next : Change) :
    h.change? next = some (h.change next).toRaw := by
  cases next with
  | pushFront p capacity => exact h.pushFront?_eq_some p capacity
  | pushBack p capacity => exact h.pushBack?_eq_some p capacity
  | trimFront capacity =>
    rw [Raw.change?, Raw.trimFront?_eq_some h.sum_lengths]
    rfl
  | trimBack capacity =>
    rw [Raw.change?, Raw.trimBack?_eq_some h.sum_lengths]
    rfl
  | align feed capacity =>
    rw [Raw.change?, Raw.align?_eq_some h.consistent]
    rfl

theorem changeAll?_eq_some (h : History) (changes : List Change) :
    h.changeAll? changes = some (h.changeAll changes).toRaw := by
  induction changes generalizing h with
  | nil => rfl
  | cons next changes ih =>
    rw [Raw.changeAll?, List.foldlM_cons, change?_eq_some, Option.bind_eq_bind, Option.bind_some]
    exact ih (h.change next)

/-! ## All changes and all runs -/

theorem changeAll_append (h : History) (first second : List Change) :
    h.changeAll (first ++ second) = (h.changeAll first).changeAll second :=
  List.foldl_append

/-- **Changes are safe.** Whatever happens to a history of one page, no check fails, the lengths
account for every entry, two pages once reached are never undercut, and each change that trims
leaves the history within its capacity or with two pages at most. A conversation keeps its feed
within its capacity, and its history too unless that has two pages at most. No change of that
history fails a check. -/
theorem changeAll_safe :
    (∀ (p : Page) (changes : List Change),
      let h := (ofPage p).changeAll changes
      (ofPage p).changeAll? changes = some h.toRaw ∧ h.lastStart? = some h.lastStart ∧
        h.lengths ≠ [] ∧ h.lengths.sum = h.entries.length ∧
        (leastPages ≤ h.lengths.length →
          ∀ more, leastPages ≤ ((ofPage p).changeAll (changes ++ more)).lengths.length) ∧
        ∀ next, h.Trims next → (h.change next).Fits next.capacity) ∧
      ∀ (poolId : String) (bounds : Bounds) (ops : List Operation),
        let c := ((Conversation.empty poolId bounds).run ops).1
        c.feed.entries.length ≤ bounds.capacity ∧
          ∀ h, c.history = some h → h.isConsistent = true ∧ h.Fits bounds.capacity ∧
            ∀ changes, h.changeAll? changes = some (h.changeAll changes).toRaw := by
  constructor
  · intro p changes h
    refine ⟨changeAll?_eq_some (ofPage p) changes, Raw.lastStart?_eq_some h.sum_lengths,
      h.lengths_ne_nil, h.sum_lengths, ?_, fun next => fits_change⟩
    intro hpages more
    rw [changeAll_append]
    exact leastPages_le_changeAll hpages more
  · intro poolId bounds ops c
    have hbounds : c.bounds = bounds := Conversation.bounds_run (.empty poolId bounds) ops
    have hc : c.Bounded := Conversation.bounded_run poolId bounds ops
    refine ⟨hbounds ▸ hc.feed.2, ?_⟩
    intro h hh
    exact ⟨h.consistent, hbounds ▸ hc.fits h hh, changeAll?_eq_some h⟩

/-- Two pages more, behind the page with `m1` and `m2`. -/
def twoPagesMore : List Change :=
  [.pushBack (.numbered 2 (["m3", "m4"].map (.message ∘ .ofId))) 6,
    .pushBack (.asNewest (.numbered 3 (["m5", "m6"].map (.message ∘ .ofId)))) 6]

/-- Three pages are reached, and an alignment leaves six entries on two of them at least. -/
theorem changeAll_safe_threePages :
    let first := Page.numbered 1 (["m1", "m2"].map (.message ∘ .ofId))
    (ofPage first).changeAll twoPagesMore = threePages ∧
      threePages.Trims (.align noticingFeed 6) ∧
      (threePages.change (.align noticingFeed 6)).Fits 6 ∧
      leastPages ≤ (threePages.change (.align noticingFeed 6)).lengths.length := by
  intro first
  have hpages : (ofPage first).changeAll twoPagesMore = threePages := by decide
  have htrims : threePages.Trims (.align noticingFeed 6) := ⟨2, 3, by decide⟩
  obtain ⟨-, -, -, -, hleast, hfits⟩ := changeAll_safe.1 first twoPagesMore
  rw [hpages] at hleast hfits
  refine ⟨hpages, htrims, hfits _ htrims, ?_⟩
  have hmore := hleast (by decide) [.align noticingFeed 6]
  rwa [changeAll_append, hpages] at hmore

end History

end Timeline
