import Timeline.Proofs.Capacity

/-!
# Trims keep as much as they can

A history is the list of its pieces. A trim drops pieces at one end, and so leaves a part of this
list that begins or ends where the list does.

**The longest part** (`Longest`). Of all parts that fit (`Fitting`), which have two pieces at most
or keep the capacity, a trim leaves the one that holds all others.

**Why it does.** A trim is a number of drops, and that number is the least after which the history
fits (`trim_least`). Each part of the list is what some number of drops leaves
(`isSuffix_pieces_iff`, `isPrefix_pieces_iff`), so a part that fits takes no fewer drops.

Main statement: `keeps_longest`, what is left of a history that takes a page, or is trimmed, at
either end.
-/

namespace Timeline

/-- Of the parts of `whole` that have property `P`, the one that holds all others. -/
structure Longest {α : Type} (PartOf : List α → List α → Prop) (P : List α → Prop)
    (whole part : List α) : Prop where
  isPart : PartOf part whole
  holds : P part
  longest : ∀ other, PartOf other whole → P other → PartOf other part

namespace History

/-- The pieces keep the capacity, or are too few to spare one. -/
def Fitting (capacity : Nat) (pieces : List (List Entry)) : Prop :=
  pieces.length ≤ leastPages ∨ pieces.flatten.length ≤ capacity

namespace Raw

theorem fits_iff {h : Raw} (hsum : h.lengths.sum = h.entries.length) (capacity : Nat) :
    h.Fits capacity ↔ Fitting capacity h.pieces := by
  rw [Fits, Fitting, length_pieces, flatten_pieces hsum, or_comm]

/-! ## The least number of drops -/

section Trim

variable {drop : Raw → Raw}

/-- Each drop of a trim was needed. -/
theorem lt_length_of_lt_trimBy {capacity j : Nat} (spare : Nat) {h : Raw}
    (hj : j < (trimBy drop capacity spare h).2) : capacity < (drop^[j] h).entries.length := by
  induction spare generalizing h j with
  | zero => cases hj
  | succ spare ih =>
    rw [trimBy] at hj
    split at hj
    · next hover =>
      change j < (trimBy drop capacity spare (drop h)).2 + 1 at hj
      cases j with
      | zero => exact hover
      | succ j =>
        rw [Function.iterate_succ_apply]
        exact ih (Nat.lt_of_succ_lt_succ hj)
    · cases hj

/-- A trim drops pages until the history fits, and no more. -/
theorem trim_least (hdrop : ∀ h : Raw, (drop h).lengths.length = h.lengths.length - 1)
    (capacity : Nat) (h : Raw) :
    ∃ k, trimBy drop capacity h.spare h = (drop^[k] h, k) ∧ (drop^[k] h).Fits capacity ∧
      ∀ j < k, ¬(drop^[j] h).Fits capacity := by
  obtain ⟨k, hk, heq⟩ := trimBy_eq_iterate drop capacity h.spare h
  have hfits := fits_trim hdrop capacity h
  rw [heq] at hfits
  refine ⟨k, heq, hfits, ?_⟩
  intro j hj
  have hover : capacity < (drop^[j] h).entries.length :=
    lt_length_of_lt_trimBy h.spare (by rw [heq]; exact hj)
  have hpages := length_iterate hdrop h j
  rw [spare] at hk
  rintro (hroom | hfew) <;> omega

/-- A history that fits is left alone. -/
theorem trim_of_fits (hdrop : ∀ h : Raw, (drop h).lengths.length = h.lengths.length - 1)
    {capacity : Nat} {h : Raw} (hfits : h.Fits capacity) :
    trimBy drop capacity h.spare h = (h, 0) := by
  obtain ⟨k, heq, -, hleast⟩ := trim_least hdrop capacity h
  cases k with
  | zero => exact heq
  | succ k => exact absurd hfits (hleast 0 (Nat.succ_pos k))

/-- Where the parts of the list of pieces are what repeated drops leave of it, a trim leaves the
longest part that fits. -/
theorem longest_trim {PartOf : List (List Entry) → List (List Entry) → Prop}
    (hdrop : ∀ h : Raw, (drop h).lengths.length = h.lengths.length - 1)
    (hkeeps : ∀ h : Raw, h.lengths.sum = h.entries.length →
      (drop h).lengths.sum = (drop h).entries.length)
    (hparts : ∀ h : Raw, h.lengths.sum = h.entries.length →
      ∀ part, PartOf part h.pieces ↔ ∃ k, part = (drop^[k] h).pieces)
    {h : Raw} (hsum : h.lengths.sum = h.entries.length) (capacity : Nat) :
    Longest PartOf (Fitting capacity) h.pieces (trimBy drop capacity h.spare h).1.pieces := by
  have hsums : ∀ k, (drop^[k] h).lengths.sum = (drop^[k] h).entries.length :=
    Function.Iterate.rec (fun h : Raw => h.lengths.sum = h.entries.length) hsum hkeeps
  obtain ⟨k, heq, hfits, hleast⟩ := trim_least hdrop capacity h
  rw [heq]
  refine ⟨(hparts h hsum _).2 ⟨k, rfl⟩, (fits_iff (hsums k) capacity).1 hfits, ?_⟩
  intro other hother hfitting
  obtain ⟨j, rfl⟩ := (hparts h hsum _).1 hother
  have hle : k ≤ j := by
    by_contra hlt
    exact hleast j (Nat.lt_of_not_le hlt) ((fits_iff (hsums j) capacity).2 hfitting)
  obtain ⟨i, rfl⟩ := Nat.exists_eq_add_of_le' hle
  exact (hparts _ (hsums k) _).2 ⟨i, by rw [Function.iterate_add_apply]⟩

end Trim

/-! ## Parts of the list of pieces -/

theorem isSuffix_pieces_iff (h : Raw) (part : List (List Entry)) :
    part <:+ h.pieces ↔ ∃ k, part = (dropFront^[k] h).pieces := by
  constructor
  · intro hpart
    exact ⟨_, by rw [pieces_iterate_dropFront]; exact List.suffix_iff_eq_drop.1 hpart⟩
  · rintro ⟨k, rfl⟩
    rw [pieces_iterate_dropFront]
    exact List.drop_suffix k _

theorem isPrefix_pieces_iff {h : Raw} (hsum : h.lengths.sum = h.entries.length)
    (part : List (List Entry)) : part <+: h.pieces ↔ ∃ k, part = (dropBack^[k] h).pieces := by
  constructor
  · intro hpart
    refine ⟨h.lengths.length - part.length, ?_⟩
    have hle := hpart.length_le
    rw [length_pieces] at hle
    rw [(iterate_dropBack hsum _).1, Nat.sub_sub_self hle]
    exact List.prefix_iff_eq_take.1 hpart
  · rintro ⟨k, rfl⟩
    rw [(iterate_dropBack hsum k).1]
    exact List.take_prefix _ _

end Raw

/-! ## What the changes leave -/

/-- The pieces of a history are the longest part of the given ones that fits. -/
structure Keeps (PartOf : List (List Entry) → List (List Entry) → Prop)
    (whole : List (List Entry)) (capacity : Nat) (h' : History) : Prop where
  pieces : Longest PartOf (Fitting capacity) whole h'.pieces
  isConsistent : h'.isConsistent = true
  entries : h'.entries = h'.pieces.flatten

/-- What a trim of the front leaves of `h`, where `k` pieces went. -/
structure TrimmedFront (h : History) (capacity : Nat) (h' : History) (k : Nat) : Prop
    extends Keeps List.IsSuffix h.pieces capacity h' where
  dropped : k + h'.pieces.length = h.pieces.length
  shortened : Shortened h h' k
  again : h'.trimFront capacity = (h', 0)

/-- What a trim of the back leaves of `h`, where `k` pieces went. -/
structure TrimmedBack (h : History) (capacity : Nat) (h' : History) (k : Nat) : Prop
    extends Keeps List.IsPrefix h.pieces capacity h' where
  dropped : k + h'.pieces.length = h.pieces.length
  oldest : h'.oldest = h.oldest
  atPresent : h'.atPresent = h.atPresent
  atBeginning : h'.atBeginning = h.atBeginning
  again : h'.trimBack capacity = (h', 0)

/-- What is left of `h` after page `p` was put in front. -/
structure PushedFront (h : History) (p : Page) (capacity : Nat) (h' : History) : Prop
    extends Keeps List.IsPrefix (p.entries :: h.pieces) capacity h' where
  page : h'.pieces.head? = some p.entries
  oldest : h'.oldest = p.number
  atPresent : h'.atPresent = true ↔ h.atPresent = true ∧ h'.pieces = p.entries :: h.pieces
  atBeginning : h'.atBeginning = p.isBeginning

/-- What is left of `h` after page `p` was put at the back. -/
structure PushedBack (h : History) (p : Page) (capacity : Nat) (h' : History) : Prop
    extends Keeps List.IsSuffix (h.pieces ++ [p.entries]) capacity h' where
  page : h'.pieces.getLast? = some p.entries
  oldest : h'.oldest = h.oldest + ((h.pieces ++ [p.entries]).length - h'.pieces.length)
  newer : h'.newer = h.newer + 1
  atPresent : h'.atPresent = p.isNewest
  atBeginning : h'.atBeginning = true ↔
    h.atBeginning = true ∧ h'.pieces = h.pieces ++ [p.entries]

theorem trimFront_of_fits {h : History} {capacity : Nat} (hfits : h.Fits capacity) :
    h.trimFront capacity = (h, 0) := by
  have hraw : h.toRaw.trimFront capacity = (h.toRaw, 0) :=
    Raw.trim_of_fits Raw.length_dropFront hfits
  have hleft : (h.trimFront capacity).1 = h := toRaw_inj.1 (congrArg Prod.fst hraw)
  have hcount : (h.trimFront capacity).2 = 0 := congrArg Prod.snd hraw
  exact Prod.ext hleft hcount

theorem trimBack_of_fits {h : History} {capacity : Nat} (hfits : h.Fits capacity) :
    h.trimBack capacity = (h, 0) := by
  have hraw : h.toRaw.trimBack capacity = (h.toRaw, 0) :=
    Raw.trim_of_fits Raw.length_dropBack hfits
  have hleft : (h.trimBack capacity).1 = h := toRaw_inj.1 (congrArg Prod.fst hraw)
  have hcount : (h.trimBack capacity).2 = 0 := congrArg Prod.snd hraw
  exact Prod.ext hleft hcount

variable (h : History) (capacity : Nat)

theorem keeps_trimFront : Keeps List.IsSuffix h.pieces capacity (h.trimFront capacity).1 where
  pieces := Raw.longest_trim Raw.length_dropFront (fun _ => Raw.sum_dropFront)
    (fun h _ => Raw.isSuffix_pieces_iff h) h.sum_lengths capacity
  isConsistent := History.consistent _
  entries := (flatten_pieces _).symm

theorem keeps_trimBack : Keeps List.IsPrefix h.pieces capacity (h.trimBack capacity).1 where
  pieces := Raw.longest_trim Raw.length_dropBack (fun _ => Raw.sum_dropBack)
    (fun _ => Raw.isPrefix_pieces_iff) h.sum_lengths capacity
  isConsistent := History.consistent _
  entries := (flatten_pieces _).symm

theorem trimmedFront :
    TrimmedFront h capacity (h.trimFront capacity).1 (h.trimFront capacity).2 := by
  obtain ⟨-, hshort, -⟩ := h.trimFront_spec capacity
  exact {
    toKeeps := h.keeps_trimFront capacity
    dropped := by
      rw [Raw.length_pieces, Raw.length_pieces, Nat.add_comm]
      exact hshort.pages
    shortened := hshort
    again := trimFront_of_fits (h.fits_trimFront capacity) }

theorem trimmedBack :
    TrimmedBack h capacity (h.trimBack capacity).1 (h.trimBack capacity).2 := by
  obtain ⟨hspare, hpieces, holdest, hpresent, hbeginning⟩ := h.trimBack_spec capacity
  exact {
    toKeeps := h.keeps_trimBack capacity
    dropped := by
      rw [hpieces, List.length_take, Raw.length_pieces]
      rw [Raw.spare] at hspare
      omega
    oldest := holdest
    atPresent := hpresent
    atBeginning := hbeginning
    again := trimBack_of_fits (h.fits_trimBack capacity) }

theorem pushedFront (p : Page) : PushedFront h p capacity (h.pushFront p capacity) := by
  obtain ⟨k, hk, hpages, hpieces, holdest, hpresent, hbeginning⟩ := h.pushFront_spec p capacity
  have hkeeps := (h.joinFront p).keeps_trimBack capacity
  rw [pieces_joinFront] at hkeeps
  have hwhole : k = 0 ↔ (h.pushFront p capacity).pieces = p.entries :: h.pieces := by
    have hpart : (h.pushFront p capacity).pieces <+: p.entries :: h.pieces := hkeeps.pieces.isPart
    rw [← hpart.sublist.length_eq, List.length_cons, Raw.length_pieces, Raw.length_pieces]
    omega
  exact {
    toKeeps := ⟨hkeeps.pieces, History.consistent _, hkeeps.entries⟩
    page := by
      rw [hpieces, show h.lengths.length + 1 - k = h.lengths.length - k + 1 by omega]
      rfl
    oldest := holdest
    atPresent := by
      rw [hpresent, ← hwhole]
      simp
    atBeginning := hbeginning }

theorem pushedBack (p : Page) : PushedBack h p capacity (h.pushBack p capacity) := by
  obtain ⟨k, hk, hshort, hpieces⟩ := h.pushBack_spec p capacity
  have hkeeps := (h.joinBack p).keeps_trimFront capacity
  rw [pieces_joinBack] at hkeeps
  have hpages : (h.pushBack p capacity).pieces.length + k = (h.pieces ++ [p.entries]).length := by
    rw [Raw.length_pieces, hshort.pages, ← pieces_joinBack, Raw.length_pieces]
  have hwhole : k = 0 ↔ (h.pushBack p capacity).pieces = h.pieces ++ [p.entries] := by
    have hpart : (h.pushBack p capacity).pieces <:+ h.pieces ++ [p.entries] := hkeeps.pieces.isPart
    rw [← hpart.sublist.length_eq]
    omega
  exact {
    toKeeps := hkeeps
    page := by
      rw [hpieces, List.drop_append_of_le_length (by rw [Raw.length_pieces]; omega),
        List.getLast?_concat]
    oldest := by
      rw [hshort.oldest, ← hpages, Nat.add_sub_cancel_left]
      rfl
    newer := by
      rw [hshort.newer, Raw.newer, pages_joinBack]
      rfl
    atPresent := hshort.atPresent
    atBeginning := by
      rw [hshort.atBeginning, ← hwhole]
      simp [joinBack, Raw.joinBack] }

/-- **Maximal retention.** At either end, a history that takes a page or is trimmed keeps the
longest part of its pieces that fits, and the page that it took is among them. Its number and marks
change as the pieces do, and a second trim changes nothing. -/
theorem keeps_longest :
    (∀ p, PushedFront h p capacity (h.pushFront p capacity)) ∧
      (∀ p, PushedBack h p capacity (h.pushBack p capacity)) ∧
      TrimmedBack h capacity (h.trimBack capacity).1 (h.trimBack capacity).2 ∧
      TrimmedFront h capacity (h.trimFront capacity).1 (h.trimFront capacity).2 :=
  ⟨h.pushedFront capacity, h.pushedBack capacity, h.trimmedBack capacity, h.trimmedFront capacity⟩

/-- Three pages, the second of them empty. -/
def pageWithoutEntries : History :=
  ⟨⟨["m2", "m3", "m4"].map (.message ∘ .ofId), [2, 0, 1], 1, true, true⟩, rfl⟩

/-- With room for two entries, a page at the back costs the oldest page only, since the empty page
can stay. A page in front costs the newest page and the empty one, and two pages stay that exceed
the capacity. -/
theorem keeps_longest_pageWithoutEntries :
    (let p := Page.numbered 4 [.message (.ofId "m5")]
    PushedBack pageWithoutEntries p 2 (pageWithoutEntries.pushBack p 2) ∧
      (pageWithoutEntries.pushBack p 2).pieces.map messages = [[], [.ofId "m4"], [.ofId "m5"]]) ∧
      let p := Page.numbered 0 [.message (.ofId "m1")]
      PushedFront pageWithoutEntries p 2 (pageWithoutEntries.pushFront p 2) ∧
        (pageWithoutEntries.pushFront p 2).pieces.map messages =
          [[.ofId "m1"], [.ofId "m2", .ofId "m3"]] := by
  obtain ⟨hfront, hback, -⟩ := keeps_longest pageWithoutEntries 2
  exact ⟨⟨hback _, by decide⟩, hfront _, by decide⟩

end History

end Timeline
