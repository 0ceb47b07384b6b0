import Mathlib.Algebra.GroupWithZero.Nat
import Mathlib.Data.List.SplitLengths
import Timeline.History.Trim

/-!
# The pieces of a history

**The view** (`History.Raw.pieces`). The entries cut into their pages again. Whatever happens to a
history adds or drops one piece at an end, or changes the last one.

Main statements: `flatten_pieces`, a history is the sequence of its pieces; `pieces_eq_concat`, its
last piece is the newest page.
-/

namespace Timeline

/-! ## Cutting a list -/

section Cut

variable {α : Type} (lengths : List Nat) (xs : List α)

/-- What follows the last piece does not matter. -/
theorem splitLengths_take {n : Nat} (hn : lengths.sum ≤ n) :
    lengths.splitLengths (xs.take n) = lengths.splitLengths xs := by
  induction lengths generalizing xs n with
  | nil => rfl
  | cons m lengths ih =>
    rw [List.sum_cons] at hn
    rw [List.splitLengths_cons, List.splitLengths_cons, List.take_take,
      Nat.min_eq_left (by omega), List.drop_take, ih _ (by omega)]

theorem splitLengths_append_right (h : lengths.sum ≤ xs.length) (ys : List α) :
    lengths.splitLengths (xs ++ ys) = lengths.splitLengths xs := by
  rw [← splitLengths_take lengths (xs ++ ys) h, List.take_left]

theorem splitLengths_append (more : List Nat) : (lengths ++ more).splitLengths xs =
    lengths.splitLengths xs ++ more.splitLengths (xs.drop lengths.sum) := by
  induction lengths generalizing xs with
  | nil => simp
  | cons n lengths ih =>
    rw [List.cons_append, List.splitLengths_cons, ih, List.splitLengths_cons, List.cons_append,
      List.drop_drop, List.sum_cons]

theorem dropLast_splitLengths :
    (lengths.splitLengths xs).dropLast = lengths.dropLast.splitLengths xs := by
  rw [List.dropLast_eq_take, List.take_splitLength, List.length_splitLengths,
    ← List.dropLast_eq_take]

end Cut

namespace History

namespace Raw

/-- The entries of each page. -/
def pieces (h : Raw) : List (List Entry) := h.lengths.splitLengths h.entries

@[simp] theorem length_pieces (h : Raw) : h.pieces.length = h.lengths.length :=
  List.length_splitLengths _ _

theorem flatten_pieces {h : Raw} (hsum : h.lengths.sum = h.entries.length) :
    h.pieces.flatten = h.entries :=
  List.flatten_splitLengths _ _ hsum.ge

/-! ## The pieces after a drop -/

theorem pieces_dropFront (h : Raw) : h.dropFront.pieces = h.pieces.tail := by
  cases hl : h.lengths <;> simp [pieces, dropFront, hl]

theorem pieces_dropBack {h : Raw} (hsum : h.lengths.sum = h.entries.length) :
    h.dropBack.pieces = h.pieces.dropLast := by
  have hle : h.lengths.dropLast.sum ≤ h.entries.length - h.lastLength :=
    (sum_dropBack hsum).le.trans (List.length_take_le _ _)
  rw [pieces, pieces, dropLast_splitLengths, dropBack, splitLengths_take _ _ hle]

end Raw

variable (h : History) (p : Page)

theorem flatten_pieces : h.pieces.flatten = h.entries := Raw.flatten_pieces h.sum_lengths

/-! ## The pieces with a new page -/

theorem pieces_joinFront : (h.joinFront p).pieces = p.entries :: h.pieces := by
  show (p.size :: h.lengths).splitLengths (p.entries ++ h.entries) = _
  rw [Page.size, List.splitLengths_cons, List.take_left, List.drop_left, Raw.pieces]

theorem pieces_joinBack : (h.joinBack p).pieces = h.pieces ++ [p.entries] := by
  show (h.lengths ++ [p.size]).splitLengths (h.entries ++ p.entries) = _
  rw [splitLengths_append, splitLengths_append_right _ _ h.sum_lengths.le, h.sum_lengths,
    List.drop_left, Page.size, List.splitLengths_cons, List.splitLengths_nil, List.take_length,
    Raw.pieces]

/-! ## The newest page -/

theorem pieces_eq_concat : h.pieces = h.pieces.dropLast ++ [h.lastPage] := by
  obtain ⟨init, last, hl, hstart, hend⟩ := Raw.lengths_eq_concat h.consistent
  have hcut : h.pieces = init.splitLengths h.entries ++ [h.lastPage] := by
    rw [Raw.pieces, hl, splitLengths_append, List.splitLengths_cons, List.splitLengths_nil, hstart,
      ← Raw.lastPage, List.take_of_length_le]
    rw [Raw.lastPage, List.length_drop]
    omega
  rw [hcut, List.dropLast_concat]

theorem lastPage_eq_getLast : h.pieces.getLast? = some h.lastPage := by
  rw [pieces_eq_concat, List.getLast?_concat]

end History

end Timeline
