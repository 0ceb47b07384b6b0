import Timeline.Proofs.Seam
import Timeline.Proofs.Steps

/-!
# Histories within their capacity

**Changes** (`Change`). Everything that can happen to a history: a page is added at either end, an
end is trimmed, or the history is aligned with a feed. Each change comes with a capacity of its own.

**What a change keeps.** Of two pages or more at least two stay (`leastPages_le_change`). A change
that trims leaves the history within the capacity, or with two pages at most (`fits_change`).

**Conversations** (`Conversation.Bounded`). A conversation makes all changes with its own capacity,
so feed and history are within it all along a run.

Main statements: `leastPages_le_changeAll` and `Conversation.bounded_run`.
-/

namespace Timeline

/-- Something that happens to a history, and the capacity that counts for it. -/
inductive Change
  | pushFront (p : Page) (capacity : Nat)
  | pushBack (p : Page) (capacity : Nat)
  | trimFront (capacity : Nat)
  | trimBack (capacity : Nat)
  | align (feed : Feed) (capacity : Nat)
  deriving DecidableEq, Repr

def Change.capacity : Change → Nat
  | .pushFront _ capacity => capacity
  | .pushBack _ capacity => capacity
  | .trimFront capacity => capacity
  | .trimBack capacity => capacity
  | .align _ capacity => capacity

namespace History

def change (h : History) : Change → History
  | .pushFront p capacity => h.pushFront p capacity
  | .pushBack p capacity => h.pushBack p capacity
  | .trimFront capacity => (h.trimFront capacity).1
  | .trimBack capacity => (h.trimBack capacity).1
  | .align feed capacity => (h.align feed capacity).1

def changeAll (h : History) (changes : List Change) : History := changes.foldl change h

/-- The capacity is kept, or no page can be spared. -/
def Raw.Fits (h : Raw) (capacity : Nat) : Prop :=
  h.entries.length ≤ capacity ∨ h.lengths.length ≤ leastPages

instance (h : Raw) (capacity : Nat) : Decidable (h.Fits capacity) :=
  inferInstanceAs (Decidable (_ ∨ _))

/-- The change trims the history: all do, except an alignment that finds no place to join. -/
def Trims (h : History) : Change → Prop
  | .align feed capacity =>
    ∃ removed inserted, (h.align feed capacity).2 = .aligned removed inserted
  | _ => True

/-! ## Trims -/

namespace Raw

variable {drop : Raw → Raw}

/-- A trim goes on until the capacity is kept or no page can be spared. -/
theorem fits_trimBy (hdrop : ∀ h : Raw, (drop h).lengths.length = h.lengths.length - 1)
    (capacity : Nat) {spare : Nat} {h : Raw} (hspare : h.lengths.length ≤ spare + leastPages) :
    (trimBy drop capacity spare h).1.Fits capacity := by
  induction spare generalizing h with
  | zero => exact .inr (Nat.le_trans hspare (Nat.le_of_eq (Nat.zero_add _)))
  | succ spare ih =>
    rw [trimBy]
    split
    · refine ih ?_
      rw [hdrop]
      omega
    · next hroom => exact .inl (Nat.le_of_not_lt hroom)

theorem fits_trim (hdrop : ∀ h : Raw, (drop h).lengths.length = h.lengths.length - 1)
    (capacity : Nat) (h : Raw) : (trimBy drop capacity h.spare h).1.Fits capacity := by
  refine fits_trimBy hdrop capacity ?_
  rw [spare]
  omega

/-- A trim leaves two pages where there were two. -/
theorem leastPages_le_trim (hdrop : ∀ h : Raw, (drop h).lengths.length = h.lengths.length - 1)
    (capacity : Nat) {h : Raw} (hpages : leastPages ≤ h.lengths.length) :
    leastPages ≤ (trimBy drop capacity h.spare h).1.lengths.length := by
  obtain ⟨hle, hcount⟩ := length_trimBy hdrop capacity (Nat.sub_le h.lengths.length leastPages)
  rw [spare]
  omega

end Raw

theorem fits_trimFront (h : History) (capacity : Nat) :
    (h.trimFront capacity).1.Fits capacity :=
  Raw.fits_trim Raw.length_dropFront capacity h

theorem fits_trimBack (h : History) (capacity : Nat) : (h.trimBack capacity).1.Fits capacity :=
  Raw.fits_trim Raw.length_dropBack capacity h

variable {h : History}

theorem leastPages_le_trimFront (hpages : leastPages ≤ h.lengths.length) (capacity : Nat) :
    leastPages ≤ (h.trimFront capacity).1.lengths.length :=
  Raw.leastPages_le_trim Raw.length_dropFront capacity hpages

theorem leastPages_le_trimBack (hpages : leastPages ≤ h.lengths.length) (capacity : Nat) :
    leastPages ≤ (h.trimBack capacity).1.lengths.length :=
  Raw.leastPages_le_trim Raw.length_dropBack capacity hpages

/-! ## Changes -/

theorem leastPages_le_change (hpages : leastPages ≤ h.lengths.length) (next : Change) :
    leastPages ≤ (h.change next).lengths.length := by
  cases next with
  | pushFront p capacity =>
    have hjoin : leastPages ≤ (h.joinFront p).lengths.length := Nat.le_succ_of_le hpages
    exact leastPages_le_trimBack hjoin capacity
  | pushBack p capacity =>
    have hjoin : leastPages ≤ (h.joinBack p).lengths.length := by
      rw [pages_joinBack]
      exact Nat.le_succ_of_le hpages
    exact leastPages_le_trimFront hjoin capacity
  | trimFront capacity => exact leastPages_le_trimFront hpages capacity
  | trimBack capacity => exact leastPages_le_trimBack hpages capacity
  | align feed capacity =>
    obtain ⟨k, hk, hs⟩ := h.shortened_align feed capacity
    have hlen := hs.pages
    rw [Raw.spare] at hk
    show leastPages ≤ (h.align feed capacity).1.lengths.length
    omega

theorem fits_change {next : Change} (htrims : h.Trims next) :
    (h.change next).Fits next.capacity := by
  cases next with
  | pushFront p capacity => exact (h.joinFront p).fits_trimBack capacity
  | pushBack p capacity => exact (h.joinBack p).fits_trimFront capacity
  | trimFront capacity => exact h.fits_trimFront capacity
  | trimBack capacity => exact h.fits_trimBack capacity
  | align feed capacity =>
    obtain ⟨-, hne⟩ | ⟨⟨o, before, hjoins⟩, -⟩ := align_cases h feed capacity
    · obtain ⟨removed, inserted, hout⟩ := htrims
      exact absurd hout (hne removed inserted)
    · rw [change, hjoins.result]
      exact fits_trimFront _ capacity

/-- A change that does not trim does nothing. -/
theorem change_of_not_trims {next : Change} (hno : ¬h.Trims next) : h.change next = h := by
  cases next with
  | align feed capacity =>
    obtain ⟨heq, -⟩ | ⟨-, haligned⟩ := align_cases h feed capacity
    · exact heq
    · exact absurd haligned hno
  | _ => exact absurd trivial hno

/-- A history that is within the capacity stays so. -/
theorem Raw.Fits.change {next : Change} (hfits : h.Fits next.capacity) :
    (h.change next).Fits next.capacity := by
  by_cases htrims : h.Trims next
  · exact fits_change htrims
  · rw [change_of_not_trims htrims]
    exact hfits

/-! ## Many changes -/

theorem leastPages_le_changeAll (hpages : leastPages ≤ h.lengths.length)
    (changes : List Change) : leastPages ≤ (h.changeAll changes).lengths.length := by
  induction changes generalizing h with
  | nil => exact hpages
  | cons next changes ih => exact ih (leastPages_le_change hpages next)

end History

/-! ## Feeds -/

namespace Feed

/-- The feed holds no more than its capacity, which is the given one. -/
def Within (f : Feed) (capacity : Nat) : Prop :=
  f.capacity = capacity ∧ f.entries.length ≤ capacity

theorem Within.pushAll {f : Feed} {capacity : Nat} (hf : f.Within capacity)
    (entries : List Entry) : (f.pushAll entries).Within capacity := by
  induction entries generalizing f with
  | nil => exact hf
  | cons e entries ih =>
    have hpush : (f.push e).Within capacity := ⟨hf.1, hf.1 ▸ length_push_le f e⟩
    exact ih hpush

theorem Within.clear {f : Feed} {capacity : Nat} (hf : f.Within capacity) :
    f.clear.Within capacity :=
  ⟨hf.1, Nat.zero_le _⟩

end Feed

/-! ## Conversations -/

namespace Conversation

open History

/-- Feed and history are within the capacity of the conversation. -/
structure Bounded (c : Conversation) : Prop where
  feed : c.feed.Within c.bounds.capacity
  fits : ∀ h, c.history = some h → h.Fits c.bounds.capacity

/-- At the present a history may be aligned, which drops whole pages at the front and never one of
the last two. -/
theorem shortened_alignedAtPresent (c : Conversation) (h : History) :
    ∃ k ≤ h.spare, Shortened h (c.alignedAtPresent h) k := by
  unfold alignedAtPresent
  split
  · exact shortened_align h c.feed c.bounds.capacity
  · exact ⟨0, Nat.zero_le _, .refl h⟩

/-- What holds of a first page, and is kept by every change that a conversation makes, holds of
the history after a page was added. -/
theorem grown_induction {P : History → Prop} {c : Conversation}
    (hpage : ∀ p, P (.ofPage p))
    (hchange : ∀ h (next : Change), next.capacity = c.bounds.capacity → P h → P (h.change next))
    (hhistory : ∀ h, c.history = some h → P h) (direction : Direction) (p : Page) :
    ∀ h, c.grown direction p = some h → P h := by
  have haligned : ∀ h, P h → P (c.alignedAtPresent h) := by
    intro h hP
    unfold alignedAtPresent
    split
    · exact hchange h (.align c.feed c.bounds.capacity) rfl hP
    · exact hP
  intro h hgrown
  unfold grown at hgrown
  cases hh : c.history with
  | none =>
    rw [hh] at hgrown
    cases direction with
    | older =>
      obtain rfl := Option.some.inj hgrown
      exact haligned _ (hpage p)
    | newer => cases hgrown
  | some h₀ =>
    rw [hh] at hgrown
    cases direction with
    | older =>
      obtain rfl := Option.some.inj hgrown
      exact hchange h₀ (.pushFront p c.bounds.capacity) rfl (hhistory h₀ hh)
    | newer =>
      obtain rfl := Option.some.inj hgrown
      exact haligned _ (hchange h₀ (.pushBack p c.bounds.capacity) rfl (hhistory h₀ hh))

/-- What holds of a first page, and is kept by every change that a conversation makes, holds of its
history after every operation. -/
theorem history_induction {P : History → Prop} {c : Conversation}
    (hpage : ∀ p, P (.ofPage p))
    (hchange : ∀ h (next : Change), next.capacity = c.bounds.capacity → P h → P (h.change next))
    (hhistory : ∀ h, c.history = some h → P h) (op : Operation) :
    ∀ h, (c.apply op).1.history = some h → P h := by
  intro h hh
  cases historyStep_apply c op with
  | stays hsame => exact hhistory h (hsame ▸ hh)
  | goes hgone =>
    rw [hgone] at hh
    cases hh
  | @aligned h₀ hop hh₀ haligned =>
    obtain rfl := Option.some.inj (haligned.symm.trans hh)
    exact hchange h₀ (.align c.feed c.bounds.capacity) rfl (hhistory h₀ hh₀)
  | @grows a p htakes hne hnumber hgrown =>
    rw [hgrown] at hh
    exact grown_induction hpage hchange hhistory a.direction p h hh

theorem bounded_empty (poolId : String) (bounds : Bounds) : (empty poolId bounds).Bounded where
  feed := ⟨rfl, Nat.zero_le _⟩
  fits := by
    intro h hh
    cases hh

theorem bounded_apply {c : Conversation} (hc : c.Bounded) (op : Operation) :
    (c.apply op).1.Bounded where
  feed := by
    rw [feed_apply, bounds_apply]
    split
    · exact hc.feed.clear.pushAll _
    · exact hc.feed.pushAll _
  fits := by
    rw [bounds_apply]
    refine history_induction (fun p => .inr (Nat.le_succ 1)) ?_ hc.fits op
    intro h next hcapacity hfits
    rw [← hcapacity] at hfits ⊢
    exact hfits.change

/-- What a conversation holds is within its capacity all along a run. -/
theorem bounded_run (poolId : String) (bounds : Bounds) (ops : List Operation) :
    ((empty poolId bounds).run ops).1.Bounded :=
  run_keeps (P := Bounded) (fun _ op hc => bounded_apply hc op) (bounded_empty poolId bounds) ops

end Conversation

end Timeline
