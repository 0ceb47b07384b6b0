import Timeline.Proofs.LongestKept

/-!
# The mark of the present

A history that is marked as ending at the present should end with a page that was delivered with
the mark of the newest one.

**The newest page** (`newestPage?`). Pages join a history at its ends and are numbered without gaps
(`AdjoinAll`). So the page that is loaded under a number is the last one delivered under it, and
there always is one (`exists_newestPage?`).

**The invariant** (`Honest`). Where the history is marked, its newest page was marked on delivery.
A page at the back brings its own mark, and a page in front takes the mark away if it costs the
newest page. Trims of the front and alignments leave both the mark and the newest page alone.

**Where it breaks** (`LosesMark`). A trim of the back drops the newest pages, but not the mark.

Main statement: `honest_iff`, the mark is honest all along the changes of a history if and only if
no trim of the back takes the marked page away.
-/

namespace Timeline

/-! ## Deliveries -/

/-- The page that a change brings. -/
def Change.page? : Change → Option Page
  | .pushFront p _ => some p
  | .pushBack p _ => some p
  | _ => none

/-- The last one delivered of the pages with a number. -/
def latest? (pages : List Page) (number : Nat) : Option Page :=
  pages.reverse.find? fun p => p.number == number

theorem latest?_concat_self (pages : List Page) (p : Page) :
    latest? (pages ++ [p]) p.number = some p := by
  simp [latest?]

theorem latest?_concat_of_ne {p : Page} {number : Nat} (h : p.number ≠ number)
    (pages : List Page) : latest? (pages ++ [p]) number = latest? pages number := by
  simp [latest?, h]

namespace History

/-- A page that the change brings is the one next to the history. -/
def Adjoins (h : History) : Change → Prop
  | .pushFront p _ => h.older? = some p.number
  | .pushBack p _ => p.number = h.newer
  | _ => True

instance (h : History) : ∀ next, Decidable (h.Adjoins next)
  | .pushFront _ _ => inferInstanceAs (Decidable (_ = _))
  | .pushBack _ _ => inferInstanceAs (Decidable (_ = _))
  | .trimFront _ => .isTrue trivial
  | .trimBack _ => .isTrue trivial
  | .align _ _ => .isTrue trivial

/-- All pages that the changes bring are next to the history in their turn. -/
def AdjoinAll : History → List Change → Prop
  | _, [] => True
  | h, next :: changes => h.Adjoins next ∧ AdjoinAll (h.change next) changes

instance decidableAdjoinAll :
    ∀ (h : History) (changes : List Change), Decidable (h.AdjoinAll changes)
  | _, [] => .isTrue trivial
  | h, next :: changes =>
    have : Decidable (AdjoinAll (h.change next) changes) := decidableAdjoinAll _ changes
    inferInstanceAs (Decidable (h.Adjoins next ∧ AdjoinAll (h.change next) changes))

theorem adjoinAll_append_iff {h : History} {first second : List Change} :
    h.AdjoinAll (first ++ second) ↔ h.AdjoinAll first ∧ (h.changeAll first).AdjoinAll second := by
  induction first generalizing h with
  | nil => exact ⟨fun h => ⟨trivial, h⟩, And.right⟩
  | cons next first ih =>
    rw [List.cons_append, AdjoinAll, AdjoinAll, ih, and_assoc]
    rfl

theorem Shortened.loaded {h h' : Raw} {k n : Nat} (hs : Shortened h h' k)
    (hle : h'.oldest ≤ n) (hlt : n < h'.newer) : h.oldest ≤ n ∧ n < h.newer := by
  rw [hs.oldest] at hle
  rw [hs.newer] at hlt
  omega

/-- A page that is loaded after a change was loaded before, or is brought by the change. -/
theorem loaded_change {h : History} {next : Change} (hnext : h.Adjoins next) {n : Nat}
    (hle : (h.change next).oldest ≤ n) (hlt : n < (h.change next).newer) :
    (h.oldest ≤ n ∧ n < h.newer) ∨ ∃ p, next.page? = some p ∧ p.number = n := by
  cases next with
  | pushFront p capacity =>
    have hpushed := h.pushedFront capacity p
    have hlength := hpushed.pieces.isPart.length_le
    rw [List.length_cons, Raw.length_pieces, Raw.length_pieces] at hlength
    have hnumber := Raw.older?_eq_some hnext
    change (h.pushFront p capacity).oldest ≤ n at hle
    change n < (h.pushFront p capacity).oldest + (h.pushFront p capacity).lengths.length at hlt
    rw [hpushed.oldest] at hle hlt
    by_cases hn : p.number = n
    · exact .inr ⟨p, rfl, hn⟩
    · rw [Raw.newer]
      exact .inl (by omega)
  | pushBack p capacity =>
    have hpushed := h.pushedBack capacity p
    change p.number = h.newer at hnext
    change (h.pushBack p capacity).oldest ≤ n at hle
    change n < (h.pushBack p capacity).newer at hlt
    rw [hpushed.oldest] at hle
    rw [hpushed.newer] at hlt
    by_cases hn : p.number = n
    · exact .inr ⟨p, rfl, hn⟩
    · exact .inl (by omega)
  | trimFront capacity => exact .inl ((h.trimmedFront capacity).shortened.loaded hle hlt)
  | trimBack capacity =>
    have htrimmed := h.trimmedBack capacity
    have hdropped := htrimmed.dropped
    rw [Raw.length_pieces, Raw.length_pieces] at hdropped
    change (h.trimBack capacity).1.oldest ≤ n at hle
    change n < (h.trimBack capacity).1.oldest + (h.trimBack capacity).1.lengths.length at hlt
    rw [htrimmed.oldest] at hle hlt
    rw [Raw.newer]
    exact .inl (by omega)
  | align feed capacity =>
    obtain ⟨k, -, hs⟩ := shortened_align h feed capacity
    exact .inl (hs.loaded hle hlt)

/-! ## The invariant -/

/-- What the changes make of the first page. -/
def grownFrom (first : Page) (changes : List Change) : History := (ofPage first).changeAll changes

/-- All pages delivered in the course of the changes. -/
def deliveredPages (first : Page) (changes : List Change) : List Page :=
  first :: changes.filterMap Change.page?

/-- The newest page, as it was delivered. -/
def newestPage? (first : Page) (changes : List Change) : Option Page :=
  latest? (deliveredPages first changes) ((grownFrom first changes).newer - 1)

/-- A history that is marked as ending at the present ends with a page that was delivered as the
newest one. -/
def Honest (first : Page) (changes : List Change) : Prop :=
  (grownFrom first changes).atPresent = true →
    ∃ p, newestPage? first changes = some p ∧ p.isNewest = true

/-- The change trims the back of a marked history, and the page that is left at its end was not
delivered as the newest one. -/
def LosesMark (first : Page) (done : List Change) : Change → Prop
  | .trimBack capacity =>
    (grownFrom first done).atPresent = true ∧
      ((grownFrom first done).trimBack capacity).2 ≠ 0 ∧
      ∃ p, newestPage? first (done ++ [.trimBack capacity]) = some p ∧ p.isNewest = false
  | _ => False

variable {first : Page} {done : List Change}

theorem grownFrom_concat (first : Page) (done : List Change) (next : Change) :
    grownFrom first (done ++ [next]) = (grownFrom first done).change next :=
  List.foldl_concat _ _ _ _

theorem deliveredPages_concat (first : Page) (done : List Change) (next : Change) :
    deliveredPages first (done ++ [next]) = deliveredPages first done ++ next.page?.toList := by
  cases hp : next.page? <;> simp [deliveredPages, List.filterMap_append, hp]

/-- Every loaded page was delivered. -/
theorem exists_latest? {changes : List Change} (hall : (ofPage first).AdjoinAll changes) {n : Nat}
    (hle : (grownFrom first changes).oldest ≤ n) (hlt : n < (grownFrom first changes).newer) :
    ∃ p, latest? (deliveredPages first changes) n = some p := by
  induction changes using List.reverseRecOn with
  | nil =>
    obtain rfl : first.number = n := Nat.le_antisymm hle (Nat.le_of_lt_succ hlt)
    exact ⟨first, latest?_concat_self [] first⟩
  | append_singleton done next ih =>
    obtain ⟨hdone, hnext, -⟩ := adjoinAll_append_iff.1 hall
    rw [grownFrom_concat] at hle hlt
    rw [deliveredPages_concat]
    have hcases := loaded_change hnext hle hlt
    cases hpage : next.page? with
    | none =>
      rw [hpage] at hcases
      obtain ⟨hle', hlt'⟩ := hcases.resolve_right nofun
      rw [Option.toList_none, List.append_nil]
      exact ih hdone hle' hlt'
    | some p =>
      rw [Option.toList_some]
      by_cases hn : p.number = n
      · exact ⟨p, hn ▸ latest?_concat_self _ p⟩
      · rw [hpage] at hcases
        obtain ⟨hle', hlt'⟩ := hcases.resolve_right fun ⟨q, hq, hqn⟩ =>
          hn (Option.some.inj hq ▸ hqn)
        rw [latest?_concat_of_ne hn]
        exact ih hdone hle' hlt'

theorem exists_newestPage? {changes : List Change} (hall : (ofPage first).AdjoinAll changes) :
    ∃ p, newestPage? first changes = some p := by
  have hpages := (grownFrom first changes).pages_pos
  refine exists_latest? hall ?_ ?_ <;> rw [Raw.newer] <;> omega

theorem honest_nil (first : Page) : Honest first [] := by
  intro hpresent
  exact ⟨first, latest?_concat_self [] first, hpresent⟩

/-! ## Steps -/

/-- Where the newest page stays and no other comes under its number, the mark is as honest as
before. -/
theorem Honest.concat (h : Honest first done) {next : Change}
    (hpresent : (grownFrom first (done ++ [next])).atPresent = true →
      (grownFrom first done).atPresent = true ∧
        (grownFrom first (done ++ [next])).newer = (grownFrom first done).newer)
    (hother : ∀ p, next.page? = some p → p.number ≠ (grownFrom first done).newer - 1) :
    Honest first (done ++ [next]) := by
  intro hmarked
  obtain ⟨hbefore, hnewer⟩ := hpresent hmarked
  obtain ⟨p, hp, hnewest⟩ := h hbefore
  refine ⟨p, ?_, hnewest⟩
  rw [newestPage?, hnewer, deliveredPages_concat]
  cases hnext : next.page? with
  | none => rwa [Option.toList_none, List.append_nil]
  | some q => rwa [Option.toList_some, latest?_concat_of_ne (hother q hnext)]

/-- A page in front has another number than the newest one, and the mark stays only with that. -/
theorem honest_pushFront (h : Honest first done) {p : Page}
    (hnext : (grownFrom first done).older? = some p.number) (capacity : Nat) :
    Honest first (done ++ [.pushFront p capacity]) := by
  have hpages := (grownFrom first done).pages_pos
  have hnumber := Raw.older?_eq_some hnext
  have hpushed := (grownFrom first done).pushedFront capacity p
  refine h.concat ?_ ?_
  · rw [grownFrom_concat]
    intro hmarked
    obtain ⟨hbefore, hpieces⟩ := hpushed.atPresent.1 hmarked
    have hlength := congrArg List.length hpieces
    rw [List.length_cons, Raw.length_pieces, Raw.length_pieces] at hlength
    refine ⟨hbefore, ?_⟩
    show ((grownFrom first done).pushFront p capacity).newer = (grownFrom first done).newer
    rw [Raw.newer, Raw.newer, hpushed.oldest, hlength]
    omega
  · intro q hq
    obtain rfl := Option.some.inj hq
    rw [Raw.newer]
    omega

/-- A page at the back is the newest one and brings its mark. -/
theorem honest_pushBack {p : Page} (hnext : p.number = (grownFrom first done).newer)
    (capacity : Nat) : Honest first (done ++ [.pushBack p capacity]) := by
  have hpushed := (grownFrom first done).pushedBack capacity p
  intro hmarked
  refine ⟨p, ?_, ?_⟩
  · rw [newestPage?, grownFrom_concat, deliveredPages_concat]
    show latest? (_ ++ [p]) (((grownFrom first done).pushBack p capacity).newer - 1) = some p
    rw [hpushed.newer, Nat.add_sub_cancel, ← hnext, latest?_concat_self]
  · rw [grownFrom_concat] at hmarked
    exact hpushed.atPresent.symm.trans hmarked

/-- Dropping pages at the front leaves the mark and the newest page alone. -/
theorem Honest.shortened (h : Honest first done) {next : Change} (hpage : next.page? = none)
    {k : Nat} (hs : Shortened (grownFrom first done) ((grownFrom first done).change next) k) :
    Honest first (done ++ [next]) := by
  refine h.concat ?_ ?_
  · rw [grownFrom_concat, hs.atPresent, hs.newer]
    intro hmarked
    exact ⟨hmarked, rfl⟩
  · intro p hp
    rw [hpage] at hp
    cases hp

/-- A trim of the back keeps the mark, so all depends on the page that it leaves at the end. -/
theorem honest_trimBack_iff (h : Honest first done) {capacity : Nat} {p : Page}
    (hp : newestPage? first (done ++ [.trimBack capacity]) = some p) :
    Honest first (done ++ [.trimBack capacity]) ↔ ¬LosesMark first done (.trimBack capacity) := by
  have htrimmed := (grownFrom first done).trimmedBack capacity
  have hmark : (grownFrom first (done ++ [.trimBack capacity])).atPresent =
      (grownFrom first done).atPresent := by
    rw [grownFrom_concat]
    exact htrimmed.atPresent
  constructor
  · rintro hhonest ⟨hmarked, -, q, hq, hnot⟩
    obtain ⟨q', hq', hnewest⟩ := hhonest (hmark.trans hmarked)
    obtain rfl : q = q' := Option.some.inj (hq.symm.trans hq')
    exact absurd hnewest (Bool.eq_false_iff.1 hnot)
  · intro hkeeps hmarked
    cases hnewest : p.isNewest with
    | true => exact ⟨p, hp, hnewest⟩
    | false =>
      -- Then no page was dropped, and the mark is as honest as it was.
      have hnone : ((grownFrom first done).trimBack capacity).2 = 0 := by
        by_contra hdrops
        exact hkeeps ⟨hmark.symm.trans hmarked, hdrops, p, hp, hnewest⟩
      have hpages := htrimmed.dropped
      rw [hnone, Raw.length_pieces, Raw.length_pieces] at hpages
      have hsame :
          Shortened (grownFrom first done) ((grownFrom first done).trimBack capacity).1 0 :=
        ⟨htrimmed.oldest, (Nat.add_comm _ _).trans hpages, htrimmed.atPresent,
          by simp [htrimmed.atBeginning]⟩
      exact h.shortened rfl hsame hmarked

/-- No other change breaks the invariant. -/
theorem honest_concat_iff (h : Honest first done) {next : Change}
    (hall : (ofPage first).AdjoinAll (done ++ [next])) :
    Honest first (done ++ [next]) ↔ ¬LosesMark first done next := by
  obtain ⟨-, hnext, -⟩ := adjoinAll_append_iff.1 hall
  cases next with
  | pushFront p capacity => exact iff_of_true (honest_pushFront h hnext capacity) id
  | pushBack p capacity => exact iff_of_true (honest_pushBack hnext capacity) id
  | trimFront capacity =>
    have hs := ((grownFrom first done).trimmedFront capacity).shortened
    exact iff_of_true (h.shortened rfl hs) id
  | trimBack capacity =>
    obtain ⟨p, hp⟩ := exists_newestPage? hall
    exact honest_trimBack_iff h hp
  | align feed capacity =>
    obtain ⟨k, -, hs⟩ := shortened_align (grownFrom first done) feed capacity
    exact iff_of_true (h.shortened rfl hs) id

/-! ## All changes -/

/-- **The mark of the present.** All along the changes of a history, its newest page was delivered
as the newest one wherever it is marked as ending at the present, if and only if no trim of the back
drops pages of a marked history and leaves at its end a page that was not delivered so. -/
theorem honest_iff {changes : List Change} (hall : (ofPage first).AdjoinAll changes) :
    (∀ done, done <+: changes → Honest first done) ↔
      ∀ done next, done ++ [next] <+: changes → ¬LosesMark first done next := by
  refine forall_prefix_iff (honest_nil first) ?_
  rintro done next ⟨rest, rfl⟩ hhonest
  exact honest_concat_iff hhonest (adjoinAll_append_iff.1 hall).1

/-! ## Three pages -/

/-- The page with two messages of its own. -/
def pageOfTwo (number : Nat) : Page :=
  .numbered number [.message (.ofId (toString (2 * number))),
    .message (.ofId (toString (2 * number + 1)))]

/-- The newest page is loaded, lost to an older one, and loaded again. -/
def newestRefetched : List Change :=
  [.pushBack (pageOfTwo 2).asNewest 4, .pushFront (pageOfTwo 0) 4,
    .pushBack (pageOfTwo 2).asNewest 4, .trimFront 2]

theorem honest_iff_newestRefetched :
    (ofPage (pageOfTwo 1)).AdjoinAll newestRefetched ∧
      (∀ done next, done ++ [next] <+: newestRefetched → ¬LosesMark (pageOfTwo 1) done next) ∧
      (grownFrom (pageOfTwo 1) newestRefetched).atPresent = true ∧
      newestPage? (pageOfTwo 1) newestRefetched = some (pageOfTwo 2).asNewest ∧
      Honest (pageOfTwo 1) newestRefetched := by
  have hall : (ofPage (pageOfTwo 1)).AdjoinAll newestRefetched := by decide
  have hkeeps : ∀ done next, done ++ [next] <+: newestRefetched →
      ¬LosesMark (pageOfTwo 1) done next := by
    intro done next hdone
    have hnext : next ∈ newestRefetched := hdone.subset (by simp)
    simp only [newestRefetched, List.mem_cons, List.not_mem_nil, or_false] at hnext
    rcases hnext with rfl | rfl | rfl | rfl <;> exact id
  have hpresent : (grownFrom (pageOfTwo 1) newestRefetched).atPresent = true := by decide
  exact ⟨hall, hkeeps, hpresent, by decide, (honest_iff hall).2 hkeeps _ (List.prefix_refl _)⟩

/-- The newest page is loaded and trimmed away. -/
def newestTrimmed : List Change :=
  [.pushBack (pageOfTwo 2) 6, .pushBack (pageOfTwo 3).asNewest 6, .trimBack 4]

/-- The history ends with page 2 and says that it ends at the present. The only page that was
delivered as the newest one is page 3. -/
theorem not_honest_newestTrimmed :
    (ofPage (pageOfTwo 1)).AdjoinAll newestTrimmed ∧
      (grownFrom (pageOfTwo 1) newestTrimmed).newer = 3 ∧
      (grownFrom (pageOfTwo 1) newestTrimmed).atPresent = true ∧
      (deliveredPages (pageOfTwo 1) newestTrimmed).filter Page.isNewest = [(pageOfTwo 3).asNewest] ∧
      ¬Honest (pageOfTwo 1) newestTrimmed := by
  refine ⟨by decide, by decide, by decide, by decide, ?_⟩
  intro hhonest
  obtain ⟨p, hp, hnewest⟩ := hhonest (by decide)
  obtain rfl : pageOfTwo 2 = p := Option.some.inj hp
  cases hnewest

end History

end Timeline
