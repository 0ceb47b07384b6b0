import Timeline.Proofs.Seam
import Timeline.Proofs.Steps

/-!
# The awaited page and the history it is added to

A request names the page next to the history at the time of asking. Its page is added later,
when other operations may have changed the history in between.

**The invariant** (`AwaitsNext`). The awaited page is the one that is next to the history now, so
that `receive` adds neighbours only (`AddsNeighbours`).

**Where it breaks** (`DropsUnderRequest`). Aligning the history with the feed may bring in notices
and then drop pages at the front. An older page that is awaited at that moment is no neighbour of
what is left, and is added all the same.

Main statement: `awaitsNext_iff`, the invariant holds all along a run if and only if no step of
the run drops pages in this way.
-/

namespace Timeline

/-! ## Requests for the page next to a history -/

/-- The request is for the page next to the history. -/
def Awaited.IsNext (a : Awaited) (h : History) : Prop :=
  match a.direction with
  | .older => a.number.isSome = true ∧ a.number = h.older?
  | .newer => a.number = some h.newer ∧ h.atPresent = false

/-- Where pages are dropped at the front, a request for an older page misses the new border. -/
theorem Awaited.isNext_shortened_iff {a : Awaited} {h h' : History} (ha : a.IsNext h) {k : Nat}
    (hs : History.Shortened h h' k) : a.IsNext h' ↔ ¬(a.direction = .older ∧ k ≠ 0) := by
  unfold IsNext at ha ⊢
  cases hd : a.direction with
  | newer =>
    simp only [hd] at ha ⊢
    rw [hs.newer, hs.atPresent]
    exact iff_of_true ha (by simp)
  | older =>
    simp only [hd] at ha ⊢
    obtain ⟨n, hn⟩ := Option.isSome_iff_exists.1 ha.1
    have hnext := History.Raw.older?_eq_some (ha.2.symm.trans hn)
    rcases Nat.eq_zero_or_pos k with rfl | hk
    · rw [hs.older?_of_zero]
      exact iff_of_true ha (by simp)
    · -- The awaited number is one below the old border, and the border has moved up.
      rw [hs.older?_of_pos hk, hn, Option.some.injEq]
      refine iff_of_false ?_ (not_not_intro ⟨trivial, Nat.ne_of_gt hk⟩)
      rintro ⟨-, hmoved⟩
      omega

namespace Conversation

/-- The awaited page is the one next to the history, and in live mode any older page. -/
def AwaitsNext (c : Conversation) : Prop :=
  match c.awaited, c.history with
  | none, _ => True
  | some a, none => a.direction = .older ∧ a.number = none
  | some a, some h => a.IsNext h

/-- A page that is taken in reply to the awaited one borders the history. -/
def TakesNeighbour (c : Conversation) : Prop :=
  ∀ a h p more, c.awaited = some a → c.history = some h → (c.receive (.ok p)).2 = .ok more →
    match a.direction with
    | .older => h.older? = some p.number
    | .newer => p.number = h.newer

/-- Pages are added at the border of the history only, be it in reply to an earlier request or to
one that is made now. -/
def AddsNeighbours (c : Conversation) : Prop :=
  c.TakesNeighbour ∧ c.askOlder.1.TakesNeighbour ∧ c.askNewer.1.TakesNeighbour

/-- An alignment drops pages at the front while an older page is awaited. -/
def DropsUnderRequest (c : Conversation) : Operation → Prop
  | .realign => ∃ a h, c.awaited = some a ∧ a.direction = .older ∧ c.history = some h ∧
      (h.align c.feed c.bounds.capacity).1.oldest ≠ h.oldest
  | _ => False

/-! ## What follows from the invariant -/

theorem awaitsNext_of_idle {c : Conversation} (hc : c.awaited = none) : c.AwaitsNext := by
  rw [AwaitsNext, hc]
  trivial

theorem AwaitsNext.takesNeighbour {c : Conversation} (hc : c.AwaitsNext) : c.TakesNeighbour := by
  intro a h p more ha hh hok
  obtain ⟨a', p', ha', hp, hfits, -⟩ := receive_of_ok hok
  obtain rfl : a = a' := Option.some.inj (ha.symm.trans ha')
  obtain rfl : p = p' := Except.ok.inj hp
  obtain ⟨-, hnumber⟩ := misfit?_eq_none_iff.1 hfits
  rw [AwaitsNext, ha, hh] at hc
  change a.IsNext h at hc
  unfold Awaited.IsNext at hc
  cases hd : a.direction with
  | older =>
    simp only [hd] at hc ⊢
    obtain ⟨n, hn⟩ := Option.isSome_iff_exists.1 hc.1
    rw [← hc.2, hn, hnumber n hn]
  | newer =>
    simp only [hd] at hc ⊢
    exact hnumber _ hc.1

/-! ## Steps -/

theorem awaitsNext_askOlder {c : Conversation} (hc : c.AwaitsNext) : c.askOlder.1.AwaitsNext := by
  obtain ⟨failure, heq⟩ | ⟨r, -, heq, hnumber⟩ := askOlder_cases c
  · rw [heq]
    exact hc
  · rw [heq, AwaitsNext]
    cases hh : c.history with
    | none =>
      rw [hh] at hnumber
      exact ⟨rfl, hnumber.1⟩
    | some h =>
      rw [hh] at hnumber
      exact ⟨hnumber.2, hnumber.1⟩

theorem awaitsNext_askNewer {c : Conversation} (hc : c.AwaitsNext) : c.askNewer.1.AwaitsNext := by
  obtain ⟨failure, heq⟩ | heq | ⟨h, -, hh, hpresent, heq⟩ := askNewer_cases c
  · rw [heq]
    exact hc
  · rw [heq]
    exact awaitsNext_of_idle rfl
  · rw [heq, AwaitsNext, hh]
    exact ⟨rfl, hpresent⟩

/-- A page is taken for a request that names the page next to the history. -/
theorem Takes.awaitsNext {c : Conversation} {op : Operation} {a : Awaited} {p : Page}
    (htakes : c.Takes op a p) (hc : c.AwaitsNext) :
    ({ c with awaited := some a } : Conversation).AwaitsNext := by
  cases htakes with
  | reply ha =>
    rw [← ha]
    exact hc
  | fetchOlder hw hask hp =>
    have hnext := awaitsNext_askOlder hc
    rwa [hask] at hnext
  | fetchNewer hw hask hp =>
    have hnext := awaitsNext_askNewer hc
    rwa [hask] at hnext

theorem AwaitsNext.addsNeighbours {c : Conversation} (hc : c.AwaitsNext) : c.AddsNeighbours :=
  ⟨hc.takesNeighbour, (awaitsNext_askOlder hc).takesNeighbour,
    (awaitsNext_askNewer hc).takesNeighbour⟩

/-- An alignment keeps the invariant if and only if it does not drop pages under a request. -/
theorem awaitsNext_realign_iff {c : Conversation} (hc : c.AwaitsNext) :
    c.realign.1.AwaitsNext ↔ ¬c.DropsUnderRequest .realign := by
  cases hh : c.history with
  | none =>
    have heq : c.realign.1 = c := by rw [realign, hh]
    rw [heq]
    refine iff_of_true hc ?_
    rintro ⟨a, h, -, -, hsome, -⟩
    rw [hh] at hsome
    cases hsome
  | some h =>
    have heq : c.realign.1 = { c with history := some (h.align c.feed c.bounds.capacity).1 } := by
      rw [realign, hh]
    obtain ⟨k, -, hshort⟩ := History.shortened_align h c.feed c.bounds.capacity
    rw [heq]
    cases ha : c.awaited with
    | none =>
      refine iff_of_true trivial ?_
      rintro ⟨a, -, hsome, -⟩
      rw [ha] at hsome
      cases hsome
    | some a =>
      have hdrops : c.DropsUnderRequest .realign ↔ a.direction = .older ∧ k ≠ 0 := by
        simp only [DropsUnderRequest, ha, hh, Option.some.injEq, exists_eq_left', exists_and_left,
          hshort.oldest, Nat.add_eq_left, ne_eq]
      rw [AwaitsNext, ha, hh] at hc
      rw [hdrops]
      exact Awaited.isNext_shortened_iff hc hshort

/-- No other operation breaks the invariant. -/
theorem awaitsNext_apply_iff {c : Conversation} (hc : c.AwaitsNext) (op : Operation) :
    (c.apply op).1.AwaitsNext ↔ ¬c.DropsUnderRequest op := by
  cases op with
  | realign => exact awaitsNext_realign_iff hc
  | push e => exact iff_of_true hc id
  | restart entries => exact iff_of_true trivial id
  | clear => exact iff_of_true trivial id
  | memberJoined userId now => exact iff_of_true hc id
  | memberLeft userId now => exact iff_of_true hc id
  | deviceOnline deviceId userId now => exact iff_of_true hc id
  | deviceOffline deviceId now =>
    refine iff_of_true ?_ id
    show (c.deviceOffline deviceId now).1.AwaitsNext
    unfold deviceOffline
    split <;> exact hc
  | setDevices devices => exact iff_of_true hc id
  | askOlder => exact iff_of_true (awaitsNext_askOlder hc) id
  | askNewer => exact iff_of_true (awaitsNext_askNewer hc) id
  | receive reply => exact iff_of_true (awaitsNext_of_idle (awaited_receive c reply)) id
  | giveUp => exact iff_of_true trivial id
  | returnToLive => exact iff_of_true trivial id
  | fetchOlder source =>
    refine iff_of_true ?_ id
    show (c.fetchOlder source).1.AwaitsNext
    obtain heq | ⟨r, -, heq⟩ := fetchOlder_fst_cases c source
    · rw [heq]
      exact hc
    · rw [heq]
      exact awaitsNext_of_idle (awaited_receive _ _)
  | fetchNewer source =>
    refine iff_of_true ?_ id
    show (c.fetchNewer source).1.AwaitsNext
    obtain heq | heq | ⟨r, -, heq⟩ := fetchNewer_fst_cases c source
    · rw [heq]
      exact hc
    · rw [heq]
      exact awaitsNext_of_idle rfl
    · rw [heq]
      exact awaitsNext_of_idle (awaited_receive _ _)

/-! ## Runs -/

/-- **The awaited page.** All along a run the awaited page is the one next to the history, so that
pages are added at its border only, if and only if no alignment of the run drops pages while an
older page is awaited. -/
theorem awaitsNext_iff (poolId : String) (bounds : Bounds) (ops : List Operation) :
    (∀ done, done <+: ops → ((empty poolId bounds).run done).1.AwaitsNext ∧
        ((empty poolId bounds).run done).1.AddsNeighbours) ↔
      ∀ done op, done ++ [op] <+: ops →
        ¬((empty poolId bounds).run done).1.DropsUnderRequest op := by
  have hstep : ∀ (c : Conversation) op, c.AwaitsNext →
      ((c.apply op).1.AwaitsNext ↔ ¬c.DropsUnderRequest op) := by
    intro c op hc
    exact awaitsNext_apply_iff hc op
  have hstart : (empty poolId bounds).AwaitsNext := trivial
  rw [← run_keeps_iff hstep hstart]
  refine forall₂_congr fun done _ => ?_
  exact and_iff_left_of_imp AwaitsNext.addsNeighbours

/-! ## A page that is no neighbour -/

/-- Message `m7` arrives, three pages of two are loaded, a notice and `m8` arrive, the page before
the history is asked for, and the history is aligned with the feed. -/
def alignedWhileWaiting : List Operation :=
  [.push (.message (.ofId "m7")), .askOlder, .receive (.ok (pageOf 3 ["m7", "m8"]).asNewest),
    .askOlder, .receive (.ok (pageOf 2 ["m5", "m6"])),
    .askOlder, .receive (.ok (pageOf 1 ["m3", "m4"])),
    .push (.membership ⟨"bob", 0, true⟩), .push (.message (.ofId "m8")), .askOlder, .realign]
where
  pageOf (number : Nat) (ids : List String) : Page :=
    .numbered number (ids.map fun id => .message (.ofId id))

/-- The notice makes the history longer than its capacity, and the page with `m3` and `m4` goes.
The page before that one is still awaited, and is put where it does not belong. -/
theorem not_awaitsNext_alignedWhileWaiting :
    let c := ((empty "pool" (.ofCapacity 6)).run alignedWhileWaiting).1
    ¬c.AwaitsNext ∧ ¬c.TakesNeighbour ∧
      messages (c.receive (.ok (alignedWhileWaiting.pageOf 0 ["m1", "m2"]))).1.shown =
        ["m1", "m2", "m5", "m6"].map .ofId := by
  intro c
  have htakes : ¬c.TakesNeighbour := by
    intro htakes
    obtain ⟨h, hh⟩ : ∃ h, c.history = some h := Option.isSome_iff_exists.1 (by decide)
    have hnext : c.history.bind (·.older?) = some 1 := by decide
    have hborder : h.older? = some 0 := htakes ⟨.older, some 0⟩ h
      (alignedWhileWaiting.pageOf 0 ["m1", "m2"]) false (by decide) hh (by rfl)
    rw [hh, Option.bind_some, hborder] at hnext
    exact absurd hnext (by decide)
  have hnext : ¬c.AwaitsNext := by
    intro hc
    exact htakes hc.takesNeighbour
  refine ⟨hnext, htakes, ?_⟩
  decide

end Conversation

end Timeline
