import Mathlib.Logic.Function.Iterate
import Timeline.Proofs.Pieces

/-!
# What trimming leaves of a history

**Repeated drops.** A trim drops pages one by one at one end, so its result is an iterate of
`dropFront` or `dropBack` (`trimBy_eq_iterate`). Everything else follows from what `k` drops do.

**Shortened histories** (`Shortened`). How page numbers and marks of a history change when its
`k` oldest pages are dropped. The number after its newest page stays, and so does the mark of the
present.

Main statements: `trimFront_spec` and `trimBack_spec`, what a trim leaves; `pushFront_spec` and
`pushBack_spec` give the pieces, numbers and marks of a history to which a page was added.
-/

namespace Timeline.History

/-! ## Histories that lost their oldest pages -/

/-- Page numbers and marks of `h'` are those of `h` without its `k` oldest pages. -/
structure Shortened (h h' : Raw) (k : Nat) : Prop where
  oldest : h'.oldest = h.oldest + k
  pages : h'.lengths.length + k = h.lengths.length
  atPresent : h'.atPresent = h.atPresent
  atBeginning : h'.atBeginning = (h.atBeginning && k == 0)

theorem Shortened.refl (h : Raw) : Shortened h h 0 := ⟨rfl, rfl, rfl, by simp⟩

theorem Shortened.trans_zero {h h' h'' : Raw} {k : Nat} (hs : Shortened h h' 0)
    (hs' : Shortened h' h'' k) : Shortened h h'' k where
  oldest := by rw [hs'.oldest, hs.oldest, Nat.add_zero]
  pages := hs'.pages.trans hs.pages
  atPresent := hs'.atPresent.trans hs.atPresent
  atBeginning := by
    have hbeg : h'.atBeginning = h.atBeginning := by simpa using hs.atBeginning
    rw [hs'.atBeginning, hbeg]

theorem Shortened.newer {h h' : Raw} {k : Nat} (hs : Shortened h h' k) : h'.newer = h.newer := by
  have := hs.oldest
  have := hs.pages
  rw [Raw.newer, Raw.newer]
  omega

theorem Shortened.older?_of_zero {h h' : Raw} (hs : Shortened h h' 0) :
    h'.older? = h.older? := by
  have hbeg : h'.atBeginning = h.atBeginning := by simpa using hs.atBeginning
  rw [Raw.older?, Raw.older?, hbeg, hs.oldest, Nat.add_zero]

theorem Shortened.older?_of_pos {h h' : Raw} {k : Nat} (hs : Shortened h h' k) (hk : 0 < k) :
    h'.older? = some (h.oldest + k - 1) := by
  have hbeg : h'.atBeginning = false := by
    rw [hs.atBeginning, show (k == 0) = false by simpa using Nat.ne_of_gt hk, Bool.and_false]
  have hne : (h.oldest + k == 0) = false := by
    simp only [beq_eq_false_iff_ne]
    omega
  rw [Raw.older?, hbeg, hs.oldest, hne]
  rfl

namespace Raw

theorem older?_eq_some {h : Raw} {n : Nat} (hn : h.older? = some n) : n + 1 = h.oldest := by
  unfold older? at hn
  split at hn
  · cases hn
  · next hmark =>
    simp only [Bool.or_eq_true, beq_iff_eq, not_or] at hmark
    obtain rfl := Option.some.inj hn
    omega

/-! ## Repeated drops -/

/-- A trim is a number of drops, and counts them. -/
theorem trimBy_eq_iterate (drop : Raw → Raw) (capacity spare : Nat) (h : Raw) :
    ∃ k ≤ spare, trimBy drop capacity spare h = (drop^[k] h, k) := by
  induction spare generalizing h with
  | zero => exact ⟨0, Nat.le_refl _, rfl⟩
  | succ spare ih =>
    rw [trimBy]
    split
    · obtain ⟨k, hk, heq⟩ := ih (drop h)
      exact ⟨k + 1, Nat.succ_le_succ hk, by rw [heq]; rfl⟩
    · exact ⟨0, Nat.zero_le _, rfl⟩

theorem length_iterate {drop : Raw → Raw}
    (hdrop : ∀ h : Raw, (drop h).lengths.length = h.lengths.length - 1) (h : Raw) (k : Nat) :
    (drop^[k] h).lengths.length = h.lengths.length - k := by
  induction k with
  | zero => rfl
  | succ k ih =>
    rw [Function.iterate_succ_apply', hdrop, ih]
    omega

theorem shortened_iterate_dropFront (h : Raw) {k : Nat} (hk : k ≤ h.lengths.length) :
    Shortened h (dropFront^[k] h) k := by
  induction k with
  | zero => exact .refl h
  | succ k ih =>
    have hs := ih (by omega)
    rw [Function.iterate_succ_apply']
    refine ⟨?_, ?_, hs.atPresent, by simp [dropFront]⟩
    · rw [dropFront, hs.oldest, Nat.add_assoc]
    · rw [length_dropFront, length_iterate length_dropFront]
      omega

theorem pieces_iterate_dropFront (h : Raw) (k : Nat) :
    (dropFront^[k] h).pieces = h.pieces.drop k := by
  induction k with
  | zero => rfl
  | succ k ih =>
    rw [Function.iterate_succ_apply', pieces_dropFront, ih, List.tail_drop]

/-- What `k` drops at the back leave alone, and what they take away. -/
theorem iterate_dropBack {h : Raw} (hsum : h.lengths.sum = h.entries.length) (k : Nat) :
    (dropBack^[k] h).pieces = h.pieces.take (h.lengths.length - k) ∧
      (dropBack^[k] h).oldest = h.oldest ∧ (dropBack^[k] h).atPresent = h.atPresent ∧
      (dropBack^[k] h).atBeginning = h.atBeginning := by
  induction k with
  | zero =>
    refine ⟨?_, rfl, rfl, rfl⟩
    rw [Nat.sub_zero, ← length_pieces, List.take_length]
    rfl
  | succ k ih =>
    obtain ⟨hpieces, hrest⟩ := ih
    have hleft : (dropBack^[k] h).lengths.sum = (dropBack^[k] h).entries.length :=
      Function.Iterate.rec (fun h : Raw => h.lengths.sum = h.entries.length)
        hsum (fun _ => sum_dropBack) k
    rw [Function.iterate_succ_apply', pieces_dropBack hleft]
    refine ⟨?_, hrest⟩
    rw [hpieces, List.dropLast_eq_take, List.take_take, List.length_take, length_pieces]
    congr 1
    omega

end Raw

/-! ## Trimming -/

theorem spare_lt (h : History) : h.spare < h.lengths.length := by
  have := h.pages_pos
  rw [Raw.spare, leastPages]
  omega

/-- Trimming the front takes away whole pages, and never one of the last two. -/
theorem trimFront_spec (h : History) (capacity : Nat) :
    (h.trimFront capacity).2 ≤ h.spare ∧
      Shortened h (h.trimFront capacity).1 (h.trimFront capacity).2 ∧
      (h.trimFront capacity).1.pieces = h.pieces.drop (h.trimFront capacity).2 := by
  obtain ⟨k, hk, heq⟩ := Raw.trimBy_eq_iterate Raw.dropFront capacity h.spare h
  have hleft : (h.trimFront capacity).1.toRaw = Raw.dropFront^[k] h := congrArg Prod.fst heq
  have hcount : (h.trimFront capacity).2 = k := congrArg Prod.snd heq
  rw [hleft, hcount]
  exact ⟨hk, Raw.shortened_iterate_dropFront h (Nat.le_trans hk (Nat.sub_le _ _)),
    Raw.pieces_iterate_dropFront h k⟩

/-- Trimming the back takes away whole pages, and never one of the last two. -/
theorem trimBack_spec (h : History) (capacity : Nat) :
    (h.trimBack capacity).2 ≤ h.spare ∧
      (h.trimBack capacity).1.pieces =
        h.pieces.take (h.lengths.length - (h.trimBack capacity).2) ∧
      (h.trimBack capacity).1.oldest = h.oldest ∧
      (h.trimBack capacity).1.atPresent = h.atPresent ∧
      (h.trimBack capacity).1.atBeginning = h.atBeginning := by
  obtain ⟨k, hk, heq⟩ := Raw.trimBy_eq_iterate Raw.dropBack capacity h.spare h
  have hleft : (h.trimBack capacity).1.toRaw = Raw.dropBack^[k] h := congrArg Prod.fst heq
  have hcount : (h.trimBack capacity).2 = k := congrArg Prod.snd heq
  rw [hleft, hcount]
  exact ⟨hk, Raw.iterate_dropBack h.sum_lengths k⟩

/-! ## Adding a page -/

theorem pages_joinFront (h : History) (p : Page) :
    (h.joinFront p).lengths.length = h.lengths.length + 1 := rfl

theorem pages_joinBack (h : History) (p : Page) :
    (h.joinBack p).lengths.length = h.lengths.length + 1 :=
  List.length_append

theorem newer_joinBack (h : History) (p : Page) : (h.joinBack p).newer = h.newer + 1 := by
  rw [Raw.newer, pages_joinBack, ← Nat.add_assoc]
  rfl

/-- A page is added in front, and `k` of the newest pages go. -/
theorem pushFront_spec (h : History) (p : Page) (capacity : Nat) :
    ∃ k < h.lengths.length,
      (h.pushFront p capacity).lengths.length + k = h.lengths.length + 1 ∧
      (h.pushFront p capacity).pieces =
        (p.entries :: h.pieces).take (h.lengths.length + 1 - k) ∧
      (h.pushFront p capacity).oldest = p.number ∧
      (h.pushFront p capacity).atPresent = (h.atPresent && k == 0) ∧
      (h.pushFront p capacity).atBeginning = p.isBeginning := by
  obtain ⟨hk, hpieces, holdest, hpresent, hbeginning⟩ := (h.joinFront p).trimBack_spec capacity
  have hpos := h.pages_pos
  have hlt : ((h.joinFront p).trimBack capacity).2 < h.lengths.length := by
    rw [Raw.spare, pages_joinFront, leastPages] at hk
    omega
  have hpieces' : (h.pushFront p capacity).pieces = (p.entries :: h.pieces).take
      (h.lengths.length + 1 - ((h.joinFront p).trimBack capacity).2) := by
    rw [← pieces_joinFront]
    exact hpieces
  refine ⟨_, hlt, ?_, hpieces', holdest, ?_, hbeginning⟩
  · rw [← Raw.length_pieces, hpieces', List.length_take, List.length_cons, Raw.length_pieces]
    omega
  · show (((h.joinFront p).trimBack capacity).1.atPresent && _) = _
    rw [hpresent]
    rfl

/-- A page is added at the back, and `k` of the oldest pages go. -/
theorem pushBack_spec (h : History) (p : Page) (capacity : Nat) :
    ∃ k < h.lengths.length, Shortened (h.joinBack p) (h.pushBack p capacity) k ∧
      (h.pushBack p capacity).pieces = (h.pieces ++ [p.entries]).drop k := by
  obtain ⟨hk, hshort, hpieces⟩ := (h.joinBack p).trimFront_spec capacity
  have hpos := h.pages_pos
  have hlt : ((h.joinBack p).trimFront capacity).2 < h.lengths.length := by
    rw [Raw.spare, pages_joinBack, leastPages] at hk
    omega
  refine ⟨_, hlt, hshort, ?_⟩
  rw [← pieces_joinBack]
  exact hpieces

end Timeline.History
