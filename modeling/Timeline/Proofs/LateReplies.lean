import Mathlib.Tactic.IntervalCases
import Timeline.Proofs.Requests

/-!
# Replies to requests that were given up

A reply does not say which request it answers, so a page that comes late may meet a request other
than the one it was fetched for. What a conversation can tell apart is this much: a page is added if
and only if it fits the request that is open (`PageRequest.Fits`, `merges_iff_fits`). A request for
the page of a message fits every page.

**Origins.** In a run, `origin k` is the step that handed out the request for which the reply of
step `k` was fetched.

**Own pages** (`AddsOwnPages`). A page that is added was fetched for the request that is open. This
holds if and only if no page that was fetched for another request fits the open one
(`addsOwnPages_iff`), so it fails where a request is given up, a message anchors the next one, and
the page for the first arrives (`not_addsOwnPages_givenUp`).
-/

namespace Timeline

/-- All that is asked of a page: it has entries, and the number that the request names, if it names
one. -/
def PageRequest.Fits (r : PageRequest) (p : Page) : Prop :=
  p.entries ≠ [] ∧ ∀ n, r.number? = some n → p.number = n

namespace Conversation

variable {c : Conversation}

theorem merges_iff_misfit? (hc : c.AwaitsOlder) {p : Page} :
    c.Merges p ↔ ∃ a, c.awaited = some a ∧ a.misfit? p = none := by
  constructor
  · rintro ⟨more, hmore⟩
    obtain ⟨a, p', ha, hp, hfits, -⟩ := receive_of_ok hmore
    obtain rfl := Except.ok.inj hp
    exact ⟨a, ha, hfits⟩
  · rintro ⟨a, ha, hfits⟩
    cases hresult : (c.receive (.ok p)).2 with
    | ok more => exact ⟨more, hresult⟩
    | error failure =>
      -- A page that fits is refused only if it is a newer one in live mode.
      simp only [receive, ha, hfits] at hresult
      obtain ⟨hlive, hnewer⟩ := merge_error hresult
      rw [hc hlive a ha] at hnewer
      cases hnewer

/-- A page is added if and only if it fits the open request, whatever it was fetched for. -/
theorem merges_iff_fits (poolId : String) (bounds : Bounds) (ops : List Operation) (p : Page) :
    ((empty poolId bounds).run ops).1.Merges p ↔
      ∃ i r, OpenAt ((empty poolId bounds).steps ops) i r ∧ r.Fits p := by
  have hidle : (empty poolId bounds).awaited = none := rfl
  rw [merges_iff_misfit? (awaitsOlder_run poolId bounds ops)]
  constructor
  · rintro ⟨a, ha, hfits⟩
    have hw : ((empty poolId bounds).run ops).1.isWaiting = true := by rw [isWaiting, ha]; rfl
    obtain ⟨i, r, hopen⟩ := (isWaiting_iff_openAt hidle ops).1 hw
    obtain rfl : a = r.awaited := Option.some.inj (ha.symm.trans (awaited_of_openAt hidle hopen))
    exact ⟨i, r, hopen, misfit?_eq_none_iff.1 hfits⟩
  · rintro ⟨i, r, hopen, hfits⟩
    exact ⟨r.awaited, awaited_of_openAt hidle hopen, misfit?_eq_none_iff.2 hfits⟩

/-! ## Origins -/

/-- Every page was fetched for a request that an earlier step handed out. -/
def FetchedBefore (c : Conversation) (ops : List Operation) (origin : Nat → Nat) : Prop :=
  ∀ k p, ops[k]? = some (.receive (.ok p)) →
    origin k < k ∧ ∃ r, ((c.steps ops)[origin k]?.bind fun step => step.2.request?) = some r

/-- Every page that is added was fetched for the request that is open at that moment. -/
def AddsOwnPages (c : Conversation) (ops : List Operation) (origin : Nat → Nat) : Prop :=
  ∀ k p, ops[k]? = some (.receive (.ok p)) → (c.run (ops.take k)).1.Merges p →
    ∃ r, OpenAt (c.steps (ops.take k)) (origin k) r

/-- The reply of step `k` brings a page that fits the open request and was fetched for another. -/
def TakesStranger (c : Conversation) (ops : List Operation) (origin : Nat → Nat) (k : Nat) : Prop :=
  ∃ p i r, ops[k]? = some (.receive (.ok p)) ∧ OpenAt (c.steps (ops.take k)) i r ∧
    i ≠ origin k ∧ r.Fits p

/-- **Late replies.** The pages that a run adds were fetched for the requests that are open at that
moment if and only if no page fits the open request that was fetched for another one. -/
theorem addsOwnPages_iff (poolId : String) (bounds : Bounds) (ops : List Operation)
    (origin : Nat → Nat) :
    (empty poolId bounds).AddsOwnPages ops origin ↔
      ∀ k, ¬(empty poolId bounds).TakesStranger ops origin k := by
  have hidle : (empty poolId bounds).awaited = none := rfl
  constructor
  · rintro hown k ⟨p, i, r, hk, hopen, hstranger, hfits⟩
    obtain ⟨s, hs⟩ := hown k p hk ((merges_iff_fits poolId bounds _ p).2 ⟨i, r, hopen, hfits⟩)
    exact hstranger (openAt_unique hidle hopen hs).1
  · intro hnone k p hk hmerges
    obtain ⟨i, r, hopen, hfits⟩ := (merges_iff_fits poolId bounds _ p).1 hmerges
    by_cases hi : i = origin k
    · exact ⟨r, hi ▸ hopen⟩
    · exact absurd ⟨p, i, r, hk, hopen, hi, hfits⟩ (hnone k)

/-! ## A page that comes late -/

/-- The page of `m1` is asked for and given up. Two messages later the feed has moved on, the page
of `m2` is asked for, and the one that was fetched for `m1` arrives. -/
def givenUp : List Operation :=
  [.push (.message (.ofId "m1")), .askOlder, .giveUp, .push (.message (.ofId "m2")),
    .push (.message (.ofId "m3")), .askOlder, .receive (.ok (.numbered 0 [.message (.ofId "m1")]))]

/-- The page is added although its request was given up, and the one for `m2` counts as answered. -/
theorem not_addsOwnPages_givenUp :
    let c := empty "pool" (.ofCapacity 2)
    c.FetchedBefore givenUp (fun _ => 1) ∧ ¬c.AddsOwnPages givenUp (fun _ => 1) ∧
      messages (c.run givenUp).1.shown = [.ofId "m1"] ∧ (c.run givenUp).1.isWaiting = false := by
  intro c
  refine ⟨?_, ?_, by decide, by decide⟩
  · intro k p hk
    have hlt : k < 7 := (List.getElem?_eq_some_iff.1 hk).1
    -- The last step is the only one that brings a page.
    interval_cases k
    case «6» => exact ⟨by decide, _, rfl⟩
    all_goals cases hk
  · intro hown
    obtain ⟨r, hopen⟩ := hown 6 _ rfl ⟨false, by decide⟩
    cases hopen.notEnded (.giveUp, .done) (List.mem_of_getElem? (i := 1) rfl)

end Conversation

end Timeline
