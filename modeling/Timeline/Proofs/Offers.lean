import Timeline.Proofs.Requests

/-!
# What is offered and what is handed out

A conversation tells in two ways whether it can go on in a direction: when it is looked at
(`canGoOlder`, `canGoNewer`), and in the answer to a page that it took. Both are promises about the
request that comes next, and each is computed by code of its own.

**The offer** (`canGo`). While no page is awaited, an offer is made if and only if asking in that
direction hands out a request (`canGo_iff`).

**The answer** (`Promises`). Where an operation answers that more history remains, or that none
does, the conversation after it awaits nothing, makes that offer and keeps it.

Main statement: `offers_agree`.
-/

namespace Timeline

/-- To ask for the next page in a direction. -/
def Direction.ask : Direction → Operation
  | .older => .askOlder
  | .newer => .askNewer

namespace Conversation

/-- The offer to go on in a direction. -/
def canGo (c : Conversation) : Direction → Bool
  | .older => c.canGoOlder
  | .newer => c.canGoNewer

/-- The request that asking in a direction hands out. -/
def handedOut? (c : Conversation) (direction : Direction) : Option PageRequest :=
  (c.apply direction.ask).2.request?

/-- The conversation awaits nothing, and offers to go on in the direction and hands out a request
for it if `more` says so, and does neither if not. -/
structure Promises (c : Conversation) (direction : Direction) (more : Bool) : Prop where
  idle : c.awaited = none
  offers : c.canGo direction = more
  keeps : more = true ↔ ∃ r, c.handedOut? direction = some r

variable {c : Conversation}

/-! ## Offers -/

theorem isSome_handedOut?_older (hw : c.awaited = none) :
    (c.handedOut? .older).isSome = c.canGoOlder := by
  show (Outcome.askedOlder c.askOlder.2).request?.isSome = _
  rw [askOlder, awaited_eq_none_iff.1 hw, canGoOlder]
  cases c.history with
  | none => cases ha : c.feed.anchor? <;> rfl
  | some h => cases ho : h.older? <;> simp [ho, Outcome.request?]

theorem isSome_handedOut?_newer (hw : c.awaited = none) :
    (c.handedOut? .newer).isSome = c.canGoNewer := by
  show (Outcome.askedNewer c.askNewer.2).request?.isSome = _
  rw [askNewer, awaited_eq_none_iff.1 hw, canGoNewer]
  cases c.history with
  | none => rfl
  | some h => cases hp : h.atPresent <;> cases ht : c.feedTakesOver <;> simp [hp, Outcome.request?]

/-- While no page is awaited, every offer is kept, and nothing is handed out without one. -/
theorem canGo_iff (hw : c.awaited = none) (direction : Direction) :
    c.canGo direction = true ↔ ∃ r, c.handedOut? direction = some r := by
  rw [← Option.isSome_iff_exists]
  cases direction with
  | older => rw [isSome_handedOut?_older hw, canGo]
  | newer => rw [isSome_handedOut?_newer hw, canGo]

/-- Without an offer to go on to newer pages, a history ends at the present. -/
theorem askNewer_of_canGoNewer_eq_false (hw : c.awaited = none) (hh : c.history.isSome = true)
    (hgo : c.canGoNewer = false) :
    c.askNewer =
      if c.feedTakesOver then (c.leaveHistory, .ok .backToLive) else (c, .error .atPresent) := by
  obtain ⟨h, hsome⟩ := Option.isSome_iff_exists.1 hh
  have hp : h.atPresent = true := by simpa [canGoNewer, hsome] using hgo
  exact askNewer_of_atPresent hw hsome hp

/-! ## Answers -/

/-- An answer that is an offer is also a promise. -/
theorem promises_of_canGo (hw : c.awaited = none) {direction : Direction} {more : Bool}
    (hgo : c.canGo direction = more) : c.Promises direction more :=
  ⟨hw, hgo, hgo ▸ canGo_iff hw direction⟩

/-- A page that is added is answered by the offer of the history that it leads to. -/
theorem canGo_merge {direction : Direction} {p : Page} {more : Bool}
    (h : (c.merge direction p).2 = .ok more) : (c.merge direction p).1.canGo direction = more := by
  unfold merge at h ⊢
  cases hh : c.history with
  | none =>
    cases direction with
    | older => simpa [hh, canGo, canGoOlder] using h
    | newer => simp [hh] at h
  | some _ =>
    cases direction with
    | older => simpa [hh, canGo, canGoOlder] using h
    | newer => simpa [hh, canGo, canGoNewer] using h

theorem promises_receive {reply : Reply} {more : Bool} (h : (c.receive reply).2 = .ok more) :
    ∃ a, c.awaited = some a ∧ (c.receive reply).1.Promises a.direction more := by
  obtain ⟨a, p, ha, -, -, heq⟩ := receive_of_ok h
  refine ⟨a, ha, promises_of_canGo (awaited_receive c reply) ?_⟩
  rw [heq] at h ⊢
  exact canGo_merge h

theorem promises_fetchOlder {source : PageRequest → Reply} {more : Bool}
    (h : (c.fetchOlder source).2.result = .ok more) :
    (c.fetchOlder source).1.Promises .older more := by
  obtain ⟨failure, hask⟩ | ⟨r, -, hask, -⟩ := askOlder_cases c
  · rw [fetchOlder, hask] at h
    cases h
  · rw [fetchOlder, hask] at h ⊢
    obtain ⟨a, ha, hpromises⟩ := promises_receive h
    obtain rfl := Option.some.inj ha
    exact hpromises

/-- Where the feed takes over, the answer is that no newer page remains. -/
theorem promises_fetchNewer {source : PageRequest → Reply} {more : Bool}
    (h : (c.fetchNewer source).2.result = .ok more) :
    (c.fetchNewer source).1.Promises .newer more := by
  obtain ⟨failure, hask⟩ | hask | ⟨h₀, -, -, -, hask⟩ := askNewer_cases c
  · rw [fetchNewer, hask] at h
    cases h
  · rw [fetchNewer, hask] at h ⊢
    exact promises_of_canGo rfl (Except.ok.inj h)
  · rw [fetchNewer, hask] at h ⊢
    obtain ⟨a, ha, hpromises⟩ := promises_receive h
    obtain rfl := Option.some.inj ha
    exact hpromises

/-- **Offers, answers and requests agree.** While no page is awaited, a conversation offers to go on
in a direction if and only if asking hands out a request; where it has a history and does not offer
to go on to newer pages, asking for one lets the feed take over if it can, and is refused otherwise.
Whatever an operation answers about the pages that remain is what the conversation after it offers
and hands out. -/
theorem offers_agree (c : Conversation) :
    (c.awaited = none →
        ∀ direction, c.canGo direction = true ↔ ∃ r, c.handedOut? direction = some r) ∧
      (c.awaited = none → c.history.isSome = true → c.canGoNewer = false →
        c.askNewer =
          if c.feedTakesOver then (c.leaveHistory, .ok .backToLive) else (c, .error .atPresent)) ∧
      (∀ reply more, (c.receive reply).2 = .ok more →
        ∃ a, c.awaited = some a ∧ (c.receive reply).1.Promises a.direction more) ∧
      (∀ source more, (c.fetchOlder source).2.result = .ok more →
        (c.fetchOlder source).1.Promises .older more) ∧
      (∀ source more, (c.fetchNewer source).2.result = .ok more →
        (c.fetchNewer source).1.Promises .newer more) ∧
      c.returnToLive.1.Promises .older c.returnToLive.2 :=
  ⟨canGo_iff, askNewer_of_canGoNewer_eq_false, fun _ _ => promises_receive,
    fun _ _ => promises_fetchOlder, fun _ _ => promises_fetchNewer, promises_of_canGo rfl rfl⟩

/-- Messages `m1` to `m4` arrive, and the page before the first of them is asked for. -/
def goesBack : List Operation :=
  [.push (.message (.ofId "m1")), .push (.message (.ofId "m2")), .push (.message (.ofId "m3")),
    .push (.message (.ofId "m4")), .askOlder]

/-- The page that comes reaches the present in the newer half of the feed. Taking it answers that
older pages remain, the next one is handed out, and once it is fetched none remains. Asking for a
newer page is answered by the return to live mode, from where there is none. -/
theorem offers_agree_newestPage :
    let page : Page :=
      (Page.numbered 1 [.message (.ofId "m2"), .message (.ofId "m3")]).asNewest
    let first : Page := .numbered 0 [.message (.ofId "m1")]
    let asked := ((empty "pool" (.ofCapacity 4)).run goesBack).1
    let c := (asked.receive (.ok page)).1
    (asked.receive (.ok page)).2 = .ok true ∧ c.Promises .older true ∧
      (∃ r, c.handedOut? .older = some r) ∧
      (c.fetchOlder fun _ => .ok first).1.Promises .older false ∧
      c.history.isSome = true ∧ c.canGoNewer = false ∧
      c.askNewer = (c.leaveHistory, .ok .backToLive) ∧
      (c.fetchNewer fun _ => .ok page).1.Promises .newer false := by
  intro page first asked c
  have hreply : (asked.receive (.ok page)).2 = .ok true := by decide
  obtain ⟨-, -, hreceive, -, -, -⟩ := offers_agree asked
  obtain ⟨hcanGo, hpresent, -, hfetchOlder, hfetchNewer, -⟩ := offers_agree c
  have hw : c.awaited = none := by decide
  have hh : c.history.isSome = true := by decide
  have hgo : c.canGoNewer = false := by decide
  have hover : c.feedTakesOver = true := by decide
  obtain ⟨a, ha, hpromises⟩ := hreceive _ _ hreply
  obtain rfl : ⟨.older, none⟩ = a := Option.some.inj ha
  refine ⟨hreply, hpromises, (hcanGo hw .older).1 (by decide), hfetchOlder _ _ (by decide), hh,
    hgo, ?_, hfetchNewer _ _ (by decide)⟩
  rw [hpresent hw hh hgo, if_pos hover]

end Conversation

end Timeline
