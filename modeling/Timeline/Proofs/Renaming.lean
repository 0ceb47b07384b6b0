import Mathlib.Data.List.Forall2
import Timeline.History.Alignment
import Timeline.Proofs.Trimming

/-!
# Renaming message ids

Ids are renamed by an injective function `f`. Two entries correspond (`Entry.Renamed`) if both are
messages and the id of the second is the renamed id of the first, or if both are notices; nothing
else that they hold matters. Lists, feeds and histories correspond if they do so entry by entry and
agree in all their numbers and marks.

**What evicts, searches and trims** keeps the correspondence, and finds the same places on both
sides. A search asks an entry only whether it is a message or carries a given id
(`findIdx?_eq_of_forall₂`).

Main statements: `Feed.Renamed.push` and `History.Renamed.align`.
-/

namespace Timeline

variable {f : String → String}

/-! ## Entries -/

/-- Two messages, of which the second has the renamed id of the first, or two notices. -/
def Entry.Renamed (f : String → String) (e e' : Entry) : Prop := e'.id? = e.id?.map f

instance (f : String → String) (e e' : Entry) : Decidable (e.Renamed f e') :=
  inferInstanceAs (Decidable (_ = _))

/-- The lists correspond entry by entry. -/
abbrev Renamed (f : String → String) (es es' : List Entry) : Prop :=
  List.Forall₂ (Entry.Renamed f) es es'

theorem Entry.Renamed.isMessage_eq {e e' : Entry} (h : e.Renamed f e') :
    e'.isMessage = e.isMessage := by
  rw [← isSome_id?, ← isSome_id?, h, Option.isSome_map]

/-- An id is found in one entry if and only if the renamed id is found in the other. -/
theorem Entry.Renamed.id?_beq (hf : Function.Injective f) {e e' : Entry} (h : e.Renamed f e')
    (id : String) : (e'.id? == some (f id)) = (e.id? == some id) := by
  rw [h, Bool.eq_iff_iff, beq_iff_eq, beq_iff_eq]
  cases e.id? with
  | none => simp
  | some id' => simp [hf.eq_iff]

/-! ## Searches -/

section Searches

variable {α β : Type} {R : α → β → Prop} {p : α → Bool} {q : β → Bool}

theorem findIdx?_eq_of_forall₂ (hpq : ∀ x y, R x y → q y = p x) {xs : List α} {ys : List β}
    (h : List.Forall₂ R xs ys) : ys.findIdx? q = xs.findIdx? p := by
  induction h with
  | nil => rfl
  | cons hxy _ ih => rw [List.findIdx?_cons, List.findIdx?_cons, hpq _ _ hxy, ih]

theorem any_eq_of_forall₂ (hpq : ∀ x y, R x y → q y = p x) {xs : List α} {ys : List β}
    (h : List.Forall₂ R xs ys) : ys.any q = xs.any p := by
  induction h with
  | nil => rfl
  | cons hxy _ ih => rw [List.any_cons, List.any_cons, hpq _ _ hxy, ih]

end Searches

theorem Renamed.findSome?_id? {es es' : List Entry} (h : Renamed f es es') :
    es'.findSome? Entry.id? = (es.findSome? Entry.id?).map f := by
  induction h with
  | nil => rfl
  | @cons e e' es es' he _ ih =>
    rw [List.findSome?_cons, List.findSome?_cons, he]
    cases e.id? with
    | none => exact ih
    | some id => rfl

theorem Renamed.lastMessageId? {es es' : List Entry} (h : Renamed f es es') :
    Timeline.lastMessageId? es' = (Timeline.lastMessageId? es).map f :=
  Renamed.findSome?_id? (List.rel_reverse h)

/-! ## Feeds -/

/-- Feeds of one capacity whose entries correspond. -/
structure Feed.Renamed (f : String → String) (x y : Feed) : Prop where
  capacity : y.capacity = x.capacity
  entries : Timeline.Renamed f x.entries y.entries

theorem Renamed.evict {es es' : List Entry} (h : Renamed f es es') :
    Renamed f (Feed.evict es) (Feed.evict es') := by
  cases h with
  | nil => exact .nil
  | cons hhead htail =>
    cases htail with
    | nil => exact .nil
    | cons hnext hrest =>
      simp only [Feed.evict, hhead.isMessage_eq, hnext.isMessage_eq]
      split
      · exact .cons hhead hrest
      · exact .cons hnext hrest

theorem Renamed.evictMany {es es' : List Entry} (h : Renamed f es es') (n : Nat) :
    Renamed f (Feed.evictMany n es) (Feed.evictMany n es') := by
  induction n generalizing es es' with
  | zero => exact h
  | succ n ih => exact ih h.evict

namespace Feed

theorem renamed_empty (f : String → String) (capacity : Nat) :
    (empty capacity).Renamed f (empty capacity) :=
  ⟨rfl, .nil⟩

variable {x y : Feed}

theorem Renamed.push (h : x.Renamed f y) {e e' : Entry} (he : e.Renamed f e') :
    (x.push e).Renamed f (y.push e') := by
  have happend : Timeline.Renamed f (x.entries ++ [e]) (y.entries ++ [e']) :=
    List.rel_append h.entries (.cons he .nil)
  refine ⟨h.capacity, ?_⟩
  show Timeline.Renamed f (fit x.capacity _) (fit y.capacity _)
  rw [fit, fit, happend.length_eq, h.capacity]
  exact happend.evictMany _

theorem Renamed.pushAll (h : x.Renamed f y) {es es' : List Entry}
    (hes : Timeline.Renamed f es es') : (x.pushAll es).Renamed f (y.pushAll es') := by
  induction hes generalizing x y with
  | nil => exact h
  | cons he _ ih => exact ih (h.push he)

theorem Renamed.clear (h : x.Renamed f y) : x.clear.Renamed f y.clear := ⟨h.capacity, .nil⟩

/-- The first message stands at the same index, and has the renamed id. -/
theorem Renamed.anchor? (h : x.Renamed f y) :
    y.anchor? = x.anchor?.map fun a => (a.1, f a.2) := by
  have hindex : y.entries.findIdx? Entry.isMessage = x.entries.findIdx? Entry.isMessage :=
    findIdx?_eq_of_forall₂ (fun _ _ he => he.isMessage_eq) h.entries
  simp only [Feed.anchor?, hindex, h.entries.findSome?_id?]
  cases x.entries.findIdx? Entry.isMessage with
  | none => rfl
  | some index => cases x.entries.findSome? Entry.id? <;> rfl

theorem Renamed.indexOf? (hf : Function.Injective f) (h : x.Renamed f y) (id : String) :
    y.indexOf? (f id) = x.indexOf? id :=
  findIdx?_eq_of_forall₂ (fun _ _ he => he.id?_beq hf id) h.entries

end Feed

/-! ## Histories -/

/-- Pages with one number and the same marks whose entries correspond. -/
structure Page.Renamed (f : String → String) (p q : Page) : Prop where
  number : q.number = p.number
  entries : Timeline.Renamed f p.entries q.entries
  isOldest : q.isOldest = p.isOldest
  isNewest : q.isNewest = p.isNewest

/-- Histories of the same pages and marks whose entries correspond. -/
structure History.Raw.Renamed (f : String → String) (h k : Raw) : Prop where
  entries : Timeline.Renamed f h.entries k.entries
  lengths : k.lengths = h.lengths
  oldest : k.oldest = h.oldest
  atPresent : k.atPresent = h.atPresent
  atBeginning : k.atBeginning = h.atBeginning

namespace Page

variable {p q : Page}

theorem Renamed.size (h : p.Renamed f q) : q.size = p.size := h.entries.length_eq.symm

theorem Renamed.isEmpty (h : p.Renamed f q) : q.isEmpty = p.isEmpty := by
  rw [Page.isEmpty, Page.isEmpty, Bool.eq_iff_iff, List.isEmpty_iff_length_eq_zero,
    List.isEmpty_iff_length_eq_zero, h.entries.length_eq]

theorem Renamed.isBeginning (h : p.Renamed f q) : q.isBeginning = p.isBeginning := by
  rw [Page.isBeginning, Page.isBeginning, h.isOldest, h.number]

end Page

namespace History.Raw

variable {h k : Raw}

theorem Renamed.older? (hr : h.Renamed f k) : k.older? = h.older? := by
  rw [Raw.older?, Raw.older?, hr.atBeginning, hr.oldest]

theorem Renamed.newer (hr : h.Renamed f k) : k.newer = h.newer := by
  rw [Raw.newer, Raw.newer, hr.oldest, hr.lengths]

theorem Renamed.lastLength (hr : h.Renamed f k) : k.lastLength = h.lastLength := by
  rw [Raw.lastLength, Raw.lastLength, hr.lengths]

theorem Renamed.lastStart (hr : h.Renamed f k) : k.lastStart = h.lastStart := by
  rw [Raw.lastStart, Raw.lastStart, hr.entries.length_eq, hr.lastLength]

theorem Renamed.ofPage {p q : Page} (hp : p.Renamed f q) : (ofPage p).Renamed f (ofPage q) :=
  ⟨hp.entries, by rw [Raw.ofPage, Raw.ofPage, hp.size], hp.number, hp.isNewest,
    hp.isBeginning⟩

/-! ### Trimming -/

theorem Renamed.dropFront (hr : h.Renamed f k) : h.dropFront.Renamed f k.dropFront := by
  refine ⟨?_, ?_, ?_, hr.atPresent, rfl⟩
  · simp only [Raw.dropFront, hr.lengths]
    exact List.forall₂_drop _ hr.entries
  · simp only [Raw.dropFront, hr.lengths]
  · simp only [Raw.dropFront, hr.oldest]

theorem Renamed.dropBack (hr : h.Renamed f k) : h.dropBack.Renamed f k.dropBack := by
  refine ⟨?_, ?_, hr.oldest, hr.atPresent, hr.atBeginning⟩
  · simp only [Raw.dropBack, hr.entries.length_eq, hr.lastLength]
    exact List.forall₂_take _ hr.entries
  · simp only [Raw.dropBack, hr.lengths]

theorem Renamed.trimBy {drop : Raw → Raw}
    (hdrop : ∀ {h k : Raw}, h.Renamed f k → (drop h).Renamed f (drop k))
    (hr : h.Renamed f k) (capacity spare : Nat) :
    (trimBy drop capacity spare h).1.Renamed f (trimBy drop capacity spare k).1 ∧
      (trimBy drop capacity spare k).2 = (trimBy drop capacity spare h).2 := by
  induction spare generalizing h k with
  | zero => exact ⟨hr, rfl⟩
  | succ spare ih =>
    simp only [Raw.trimBy, ← hr.entries.length_eq]
    split
    · exact ⟨(ih (hdrop hr)).1, congrArg (· + 1) (ih (hdrop hr)).2⟩
    · exact ⟨hr, rfl⟩

theorem Renamed.spare (hr : h.Renamed f k) : k.spare = h.spare := by
  rw [Raw.spare, Raw.spare, hr.lengths]

theorem Renamed.trimFront (hr : h.Renamed f k) (capacity : Nat) :
    (h.trimFront capacity).1.Renamed f (k.trimFront capacity).1 := by
  rw [Raw.trimFront, Raw.trimFront, hr.spare]
  exact (hr.trimBy Renamed.dropFront capacity _).1

theorem Renamed.trimBack (hr : h.Renamed f k) (capacity : Nat) :
    (h.trimBack capacity).1.Renamed f (k.trimBack capacity).1 ∧
      (k.trimBack capacity).2 = (h.trimBack capacity).2 := by
  rw [Raw.trimBack, Raw.trimBack, hr.spare]
  exact hr.trimBy Renamed.dropBack capacity _

theorem Renamed.pushFront {h k : History} (hr : h.Renamed f k) {p q : Page} (hp : p.Renamed f q)
    (capacity : Nat) : (h.pushFront p capacity).Renamed f (k.pushFront q capacity) := by
  have hjoin : (h.joinFront p).Renamed f (k.joinFront q) :=
    ⟨List.rel_append hp.entries hr.entries, congrArg₂ List.cons hp.size hr.lengths,
      hp.number, hr.atPresent, hp.isBeginning⟩
  obtain ⟨htrim, hdropped⟩ := hjoin.trimBack capacity
  refine ⟨htrim.entries, htrim.lengths, htrim.oldest, ?_, htrim.atBeginning⟩
  exact congrArg₂ (fun mark count => mark && count == 0) htrim.atPresent hdropped

theorem Renamed.pushBack {h k : History} (hr : h.Renamed f k) {p q : Page} (hp : p.Renamed f q)
    (capacity : Nat) : (h.pushBack p capacity).Renamed f (k.pushBack q capacity) := by
  have hjoin : (h.joinBack p).Renamed f (k.joinBack q) :=
    ⟨List.rel_append hr.entries hp.entries,
      congrArg₂ (fun lengths size => lengths ++ [size]) hr.lengths hp.size,
      hr.oldest, hp.isNewest, hr.atBeginning⟩
  exact hjoin.trimFront capacity

/-! ### Alignment -/

theorem Renamed.lastMessageId? (hr : h.Renamed f k) :
    k.lastMessageId? = h.lastMessageId?.map f :=
  hr.entries.lastMessageId?

theorem Renamed.overlap? (hf : Function.Injective f) (hr : h.Renamed f k) {x y : Feed}
    (hfeed : x.Renamed f y) :
    k.overlap? y = (h.overlap? x).map fun o => ⟨o.first, f o.anchor, o.last⟩ := by
  simp only [Raw.overlap?, hr.lastMessageId?, hfeed.anchor?]
  cases h.lastMessageId? with
  | none => rfl
  | some newest =>
    cases x.anchor? with
    | none => rfl
    | some anchor =>
      simp only [Option.map_some, Option.bind_eq_bind, Option.bind_some, hfeed.indexOf? hf]
      cases x.indexOf? newest with
      | none => rfl
      | some last =>
        simp only [Option.bind_some]
        split <;> rfl

theorem Renamed.lastPageIndex? (hf : Function.Injective f) (hr : h.Renamed f k) (id : String) :
    k.lastPageIndex? (f id) = h.lastPageIndex? id := by
  have hpage : Timeline.Renamed f h.lastPage k.lastPage := by
    rw [Raw.lastPage, Raw.lastPage, hr.lastStart]
    exact List.forall₂_drop _ hr.entries
  have hreverse : Timeline.Renamed f h.lastPage.reverse k.lastPage.reverse :=
    List.rel_reverse hpage
  have hfind := findIdx?_eq_of_forall₂
    (fun (e e' : Entry) (he : e.Renamed f e') => he.id?_beq hf id) hreverse
  rw [Raw.lastPageIndex?, Raw.lastPageIndex?, lastIndex?, lastIndex?, hfind,
    hpage.length_eq, hr.lastStart]

theorem Renamed.replaceTail (hr : h.Renamed f k) (start : Nat) {es es' : List Entry}
    (hes : Timeline.Renamed f es es') :
    (h.replaceTail start es).Renamed f (k.replaceTail start es') := by
  refine ⟨List.rel_append (List.forall₂_take _ hr.entries) hes, ?_, hr.oldest, hr.atPresent,
    hr.atBeginning⟩
  simp only [Raw.replaceTail, hr.entries.length_eq, hr.lengths, hes.length_eq]

/-- An alignment replaces corresponding entries by corresponding ones, and reports the same. -/
theorem Renamed.align (hf : Function.Injective f) (hr : h.Renamed f k) {x y : Feed}
    (hfeed : x.Renamed f y) (capacity : Nat) :
    (h.align x capacity).1.Renamed f (k.align y capacity).1 ∧
      (k.align y capacity).2 = (h.align x capacity).2 := by
  have hoverlap := hr.overlap? hf hfeed
  rw [Raw.align, Raw.align]
  cases ho : h.overlap? x with
  | none =>
    rw [ho] at hoverlap
    rw [hoverlap]
    exact ⟨hr, rfl⟩
  | some o =>
    rw [ho] at hoverlap
    simp only [hoverlap, Option.map_some, hr.lastPageIndex? hf]
    cases h.lastPageIndex? o.anchor with
    | none => exact ⟨hr, rfl⟩
    | some start =>
      have hshared : Timeline.Renamed f (o.entries x)
          (Overlap.entries ⟨o.first, f o.anchor, o.last⟩ y) :=
        List.forall₂_take _ (List.forall₂_drop _ hfeed.entries)
      exact ⟨(hr.replaceTail start hshared).trimFront capacity, by rw [hr.entries.length_eq]⟩

theorem Renamed.overlapsFrom (hf : Function.Injective f) (hr : h.Renamed f k) {x y : Feed}
    (hfeed : x.Renamed f y) (threshold : Nat) :
    k.overlapsFrom y threshold = h.overlapsFrom x threshold := by
  rw [Raw.overlapsFrom, Raw.overlapsFrom, hr.lastMessageId?]
  cases h.lastMessageId? with
  | none => rfl
  | some id =>
    exact any_eq_of_forall₂ (fun _ _ he => he.id?_beq hf id)
      (List.forall₂_drop threshold hfeed.entries)

end History.Raw

end Timeline
