import Timeline.History.Basic

/-!
# Growing and trimming history

A page is added at either end. If the history then exceeds the capacity, whole pages are dropped
at the other end while it does. Two pages always stay, so that a place where two pages meet
remains loaded.

A drop may take the last page away, so it is made on a state that need not be consistent. It keeps
the sum of the lengths right; a trim also keeps a page, and so leads from one consistent state to
another (`isConsistent_trimFront`, `isConsistent_trimBack`).
-/

namespace Timeline.History

attribute [local instance] natZero

/-- The fewest pages that a trim leaves. -/
def leastPages : Nat := 2

namespace Raw

/-! ## Dropping a page -/

/-- Without its oldest page the history no longer starts at the beginning. -/
def dropFront (h : Raw) : Raw :=
  { h with
    entries := h.entries.drop (h.lengths.headD 0)
    lengths := h.lengths.tail
    oldest := h.oldest + 1
    atBeginning := false }

def dropBack (h : Raw) : Raw :=
  { h with
    entries := h.entries.take (h.entries.length - h.lastLength)
    lengths := h.lengths.dropLast }

/-! ## Trimming -/

/-- How many pages may be dropped. -/
def spare (h : Raw) : Nat := h.lengths.length - leastPages

/-- Drop a page while the capacity is exceeded, at most `spare` of them. The second part counts
the dropped pages. -/
def trimBy (drop : Raw → Raw) (capacity : Nat) : Nat → Raw → Raw × Nat
  | 0, h => (h, 0)
  | spare + 1, h =>
    if capacity < h.entries.length then
      let (trimmed, dropped) := trimBy drop capacity spare (drop h)
      (trimmed, dropped + 1)
    else (h, 0)

/-- Drop the oldest pages while the capacity is exceeded. -/
def trimFront (h : Raw) (capacity : Nat) : Raw × Nat := trimBy dropFront capacity h.spare h

/-- Drop the newest pages while the capacity is exceeded. -/
def trimBack (h : Raw) (capacity : Nat) : Raw × Nat := trimBy dropBack capacity h.spare h

/-! ## Adding a page -/

/-- The state with a page in front, before the trim. -/
def joinFront (h : Raw) (p : Page) : Raw :=
  { h with
    entries := p.entries ++ h.entries
    lengths := p.size :: h.lengths
    oldest := p.number
    atBeginning := p.isBeginning }

/-- The state with a page at the back, before the trim. -/
def joinBack (h : Raw) (p : Page) : Raw :=
  { h with
    entries := h.entries ++ p.entries
    lengths := h.lengths ++ [p.size]
    atPresent := p.isNewest }

/-! ## Consistency -/

theorem length_dropFront (h : Raw) : h.dropFront.lengths.length = h.lengths.length - 1 := by
  rw [dropFront, List.length_tail]

theorem length_dropBack (h : Raw) : h.dropBack.lengths.length = h.lengths.length - 1 := by
  rw [dropBack, List.length_dropLast]

theorem sum_dropFront {h : Raw} (hsum : h.lengths.sum = h.entries.length) :
    h.dropFront.lengths.sum = h.dropFront.entries.length := by
  rw [dropFront, List.length_drop, ← hsum]
  cases h.lengths <;> simp

theorem sum_dropBack {h : Raw} (hsum : h.lengths.sum = h.entries.length) :
    h.dropBack.lengths.sum = h.dropBack.entries.length := by
  rw [dropBack, List.length_take, ← hsum, lastLength]
  rcases List.eq_nil_or_concat h.lengths with hnil | ⟨init, last, hlast⟩
  · simp [hnil]
  · rw [hlast, List.concat_eq_append, List.dropLast_concat, List.getLastD_concat]
    simp

section Trim

variable {drop : Raw → Raw}

/-- What a drop keeps, a trim keeps. -/
theorem trimBy_keeps {P : Raw → Prop} (hdrop : ∀ h, P h → P (drop h)) (capacity spare : Nat)
    {h : Raw} (hh : P h) : P (trimBy drop capacity spare h).1 := by
  induction spare generalizing h with
  | zero => exact hh
  | succ spare ih =>
    rw [trimBy]
    split
    · exact ih (hdrop h hh)
    · exact hh

/-- A trim counts the pages that are gone. -/
theorem length_trimBy (hdrop : ∀ h : Raw, (drop h).lengths.length = h.lengths.length - 1)
    (capacity : Nat) {spare : Nat} {h : Raw} (hspare : spare ≤ h.lengths.length) :
    (trimBy drop capacity spare h).2 ≤ spare ∧
      (trimBy drop capacity spare h).1.lengths.length + (trimBy drop capacity spare h).2 =
        h.lengths.length := by
  induction spare generalizing h with
  | zero => exact ⟨Nat.le_refl _, rfl⟩
  | succ spare ih =>
    have hpages := hdrop h
    obtain ⟨hle, hcount⟩ := ih (h := drop h) (by omega)
    rw [trimBy]
    split
    · exact ⟨Nat.succ_le_succ hle, by dsimp only; omega⟩
    · exact ⟨Nat.zero_le _, rfl⟩

theorem isConsistent_trim (hdrop : ∀ h : Raw, (drop h).lengths.length = h.lengths.length - 1)
    (hsum : ∀ h : Raw, h.lengths.sum = h.entries.length →
      (drop h).lengths.sum = (drop h).entries.length)
    {h : Raw} (hc : h.isConsistent = true) (capacity : Nat) :
    (trimBy drop capacity h.spare h).1.isConsistent = true := by
  obtain ⟨hne, hh⟩ := isConsistent_iff.1 hc
  have hpos := List.length_pos_iff.2 hne
  obtain ⟨hle, hcount⟩ := length_trimBy hdrop capacity (Nat.sub_le h.lengths.length leastPages)
  refine isConsistent_iff.2 ⟨List.length_pos_iff.1 ?_, trimBy_keeps hsum capacity h.spare hh⟩
  rw [spare, leastPages] at *
  omega

end Trim

theorem isConsistent_trimFront {h : Raw} (hc : h.isConsistent = true) (capacity : Nat) :
    (h.trimFront capacity).1.isConsistent = true :=
  isConsistent_trim length_dropFront (fun _ => sum_dropFront) hc capacity

theorem isConsistent_trimBack {h : Raw} (hc : h.isConsistent = true) (capacity : Nat) :
    (h.trimBack capacity).1.isConsistent = true :=
  isConsistent_trim length_dropBack (fun _ => sum_dropBack) hc capacity

theorem isConsistent_joinFront {h : Raw} (hc : h.isConsistent = true) (p : Page) :
    (h.joinFront p).isConsistent = true := by
  simpa [isConsistent_iff, joinFront, Page.size] using (isConsistent_iff.1 hc).2

theorem isConsistent_joinBack {h : Raw} (hc : h.isConsistent = true) (p : Page) :
    (h.joinBack p).isConsistent = true := by
  simpa [isConsistent_iff, joinBack, Page.size] using (isConsistent_iff.1 hc).2

end Raw

/-! ## Changes of a history -/

def trimFront (h : History) (capacity : Nat) : History × Nat :=
  (⟨(h.toRaw.trimFront capacity).1, Raw.isConsistent_trimFront h.consistent capacity⟩,
    (h.toRaw.trimFront capacity).2)

def trimBack (h : History) (capacity : Nat) : History × Nat :=
  (⟨(h.toRaw.trimBack capacity).1, Raw.isConsistent_trimBack h.consistent capacity⟩,
    (h.toRaw.trimBack capacity).2)

def joinFront (h : History) (p : Page) : History :=
  ⟨h.toRaw.joinFront p, Raw.isConsistent_joinFront h.consistent p⟩

def joinBack (h : History) (p : Page) : History :=
  ⟨h.toRaw.joinBack p, Raw.isConsistent_joinBack h.consistent p⟩

/-- Put the page numbered `older?` in front and trim the back. Without its newest pages the
history no longer ends at the present. -/
def pushFront (h : History) (p : Page) (capacity : Nat) : History :=
  let (trimmed, dropped) := (h.joinFront p).trimBack capacity
  { trimmed with atPresent := trimmed.atPresent && dropped == 0 }

/-- Put the page numbered `newer` at the back and trim the front. -/
def pushBack (h : History) (p : Page) (capacity : Nat) : History :=
  ((h.joinBack p).trimFront capacity).1

end Timeline.History
