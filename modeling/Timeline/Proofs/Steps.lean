import Mathlib.Data.List.Induction
import Timeline.Conversation.Operation

/-!
# What one operation does to a conversation

**Inversion.** Each paging operation either fails or changes the conversation in one of a few
ways. These are listed once (`askOlder_cases`, `askNewer_cases`, `receive_cases`), and invariants
are proved along them. Over all operations, the loaded history stays, goes, is aligned or takes
one page (`historyStep_apply`), and the feed takes what is delivered (`feed_apply`).

**Runs.** An invariant holds all along a run if and only if no operation of the run is one of those
that break it (`forall_prefix_iff`, `run_keeps_iff`).
-/

namespace Timeline

/-! ## Runs -/

/-- Where a step keeps an invariant unless it is a bad one, the invariant holds all along a run if
and only if no step of the run is bad. -/
theorem forall_prefix_iff {α : Type} {P : List α → Prop} {Bad : List α → α → Prop} {steps : List α}
    (hnil : P []) (hstep : ∀ done step, done ++ [step] <+: steps → P done →
      (P (done ++ [step]) ↔ ¬Bad done step)) :
    (∀ done, done <+: steps → P done) ↔
      ∀ done step, done ++ [step] <+: steps → ¬Bad done step := by
  constructor
  · intro h done step hdone
    exact (hstep done step hdone (h done ((List.prefix_append _ _).trans hdone))).1 (h _ hdone)
  · intro h done
    induction done using List.reverseRecOn with
    | nil =>
      intro _
      exact hnil
    | append_singleton done step ih =>
      intro hdone
      exact (hstep done step hdone (ih ((List.prefix_append _ _).trans hdone))).2 (h _ _ hdone)

namespace Conversation

theorem run_concat (c : Conversation) (ops : List Operation) (op : Operation) :
    (c.run (ops ++ [op])).1 = ((c.run ops).1.apply op).1 := by
  rw [run_append]
  rfl

/-- What every operation keeps holds after every run. -/
theorem run_keeps {P : Conversation → Prop} (hstep : ∀ c op, P c → P (c.apply op).1)
    {c : Conversation} (hc : P c) (ops : List Operation) : P (c.run ops).1 := by
  induction ops generalizing c with
  | nil => exact hc
  | cons op ops ih => exact ih (hstep c op hc)

/-- An operation that is not a bad one keeps the invariant, and a bad one breaks it. -/
theorem run_keeps_iff {P : Conversation → Prop} {Bad : Conversation → Operation → Prop}
    (hstep : ∀ c op, P c → (P (c.apply op).1 ↔ ¬Bad c op)) {c : Conversation} (hc : P c)
    (ops : List Operation) :
    (∀ done, done <+: ops → P (c.run done).1) ↔
      ∀ done op, done ++ [op] <+: ops → ¬Bad (c.run done).1 op := by
  refine forall_prefix_iff (P := fun done => P (c.run done).1) hc ?_
  intro done op _ hdone
  rw [run_concat]
  exact hstep _ op hdone

/-! ## Asking -/

/-- A request for an older page names the page before the history, and in live mode a message. -/
theorem askOlder_cases (c : Conversation) :
    (∃ failure, c.askOlder = (c, .error failure)) ∨
      ∃ r, c.awaited = none ∧
        c.askOlder = ({ c with awaited := some ⟨.older, r.number?⟩ }, .ok r) ∧
        match c.history with
        | none => r.number? = none ∧ c.feed.anchor?.isSome = true
        | some h => r.number? = h.older? ∧ r.number?.isSome = true := by
  cases hw : c.awaited with
  | some a => exact .inl ⟨.alreadyWaiting, by simp [askOlder, isWaiting, hw]⟩
  | none =>
    cases hh : c.history with
    | none =>
      cases ha : c.feed.anchor? with
      | none => exact .inl ⟨.nothingToAnchor, by simp [askOlder, isWaiting, hw, hh, ha]⟩
      | some p =>
        exact .inr ⟨⟨.message p.2, .older⟩, rfl,
          by simp [askOlder, isWaiting, hw, hh, ha, PageRequest.number?], rfl, rfl⟩
    | some h =>
      cases ho : h.older? with
      | none => exact .inl ⟨.noOlderPage, by simp [askOlder, isWaiting, hw, hh, ho]⟩
      | some n =>
        exact .inr ⟨⟨.number n, .older⟩, rfl,
          by simp [askOlder, isWaiting, hw, hh, ho, PageRequest.number?], ho.symm, rfl⟩

/-- A request for a newer page names the page after the history; at the present there is none. -/
theorem askNewer_cases (c : Conversation) :
    (∃ failure, c.askNewer = (c, .error failure)) ∨
      c.askNewer = (c.leaveHistory, .ok .backToLive) ∨
      ∃ h, c.awaited = none ∧ c.history = some h ∧ h.atPresent = false ∧
        c.askNewer = ({ c with awaited := some ⟨.newer, some h.newer⟩ },
          .ok (.request ⟨.number h.newer, .newer⟩)) := by
  cases hw : c.awaited with
  | some a => exact .inl ⟨.alreadyWaiting, by simp [askNewer, isWaiting, hw]⟩
  | none =>
    cases hh : c.history with
    | none => exact .inl ⟨.noHistory, by simp [askNewer, isWaiting, hw, hh]⟩
    | some h =>
      cases hp : h.atPresent with
      | false => exact .inr (.inr ⟨h, rfl, rfl, hp, by simp [askNewer, isWaiting, hw, hh, hp]⟩)
      | true =>
        cases ht : c.feedTakesOver with
        | true => exact .inr (.inl (by simp [askNewer, isWaiting, hw, hh, hp, ht]))
        | false => exact .inl ⟨.atPresent, by simp [askNewer, isWaiting, hw, hh, hp, ht]⟩

/-- At the present the feed takes over, or the request is refused. -/
theorem askNewer_of_atPresent {c : Conversation} {h : History} (hw : c.awaited = none)
    (hh : c.history = some h) (hpresent : h.atPresent = true) :
    c.askNewer =
      if c.feedTakesOver then (c.leaveHistory, .ok .backToLive) else (c, .error .atPresent) := by
  simp [askNewer, isWaiting, hw, hh, hpresent]

/-! ## Receiving -/

theorem misfit?_eq_none_iff {a : Awaited} {p : Page} :
    a.misfit? p = none ↔ p.entries ≠ [] ∧ ∀ n, a.number = some n → p.number = n := by
  have hempty : p.isEmpty = true ↔ p.entries = [] := List.isEmpty_iff
  unfold Awaited.misfit?
  cases ha : a.number with
  | none => by_cases hp : p.entries = [] <;> simp [hempty, hp]
  | some n =>
    by_cases hn : p.number = n
    · by_cases hp : p.entries = [] <;> simp [hempty, hp, hn]
    · simp [hn]

/-- A reply is refused, or its page is added to the history. -/
theorem receive_cases (c : Conversation) (reply : Reply) :
    (c.awaited = none ∧ c.receive reply = (c, .error .notWaiting)) ∨
      (∃ failure, c.receive reply = (c.giveUp, .error failure)) ∨
      (∃ failure, c.receive reply = (c.leaveHistory, .error failure)) ∨
      ∃ a p, c.awaited = some a ∧ reply = .ok p ∧ p.entries ≠ [] ∧
        (∀ n, a.number = some n → p.number = n) ∧
        c.receive reply = c.giveUp.merge a.direction p := by
  unfold receive
  cases ha : c.awaited with
  | none => exact .inl ⟨rfl, rfl⟩
  | some a =>
    cases reply with
    | error reason => exact .inr (.inl ⟨_, rfl⟩)
    | ok p =>
      cases hm : a.misfit? p with
      | some failure => exact .inr (.inr (.inl ⟨failure, by simp [hm]⟩))
      | none =>
        obtain ⟨hne, hnumber⟩ := misfit?_eq_none_iff.1 hm
        exact .inr (.inr (.inr ⟨a, p, rfl, rfl, hne, hnumber, by simp [hm]⟩))

/-- A reply that is not refused brings a page that fits, and the page is added. -/
theorem receive_of_ok {c : Conversation} {reply : Reply} {more : Bool}
    (h : (c.receive reply).2 = .ok more) :
    ∃ a p, c.awaited = some a ∧ reply = .ok p ∧ a.misfit? p = none ∧
      c.receive reply = c.giveUp.merge a.direction p := by
  obtain ⟨-, heq⟩ | ⟨failure, heq⟩ | ⟨failure, heq⟩ | ⟨a, p, ha, hp, hne, hnumber, heq⟩ :=
    receive_cases c reply
  · rw [heq] at h
    cases h
  · rw [heq] at h
    cases h
  · rw [heq] at h
    cases h
  · exact ⟨a, p, ha, hp, misfit?_eq_none_iff.2 ⟨hne, hnumber⟩, heq⟩

/-- The history after a page that fits was added. -/
def grown (c : Conversation) (direction : Direction) (p : Page) : Option History :=
  match c.history, direction with
  | some h, .older => some (h.pushFront p c.bounds.capacity)
  | some h, .newer => some (c.alignedAtPresent (h.pushBack p c.bounds.capacity))
  | none, .older => some (c.alignedAtPresent (.ofPage p))
  | none, .newer => none

/-- Adding a page changes the history only. -/
theorem merge_fst (c : Conversation) (direction : Direction) (p : Page) :
    (c.merge direction p).1 = { c with history := c.grown direction p } := by
  obtain ⟨poolId, bounds, feed, history, awaited, devices⟩ := c
  cases history <;> cases direction <;> rfl

/-- What a reply leaves of a conversation. -/
theorem receive_fst_cases (c : Conversation) (reply : Reply) :
    (c.awaited = none ∧ (c.receive reply).1 = c) ∨ (c.receive reply).1 = c.giveUp ∨
      (c.receive reply).1 = c.leaveHistory ∨
      ∃ a p, c.awaited = some a ∧ reply = .ok p ∧ p.entries ≠ [] ∧
        (∀ n, a.number = some n → p.number = n) ∧
        (c.receive reply).1 = { c with history := c.grown a.direction p, awaited := none } := by
  obtain ⟨hw, heq⟩ | ⟨failure, heq⟩ | ⟨failure, heq⟩ | ⟨a, p, ha, hreply, hne, hnumber, heq⟩ :=
    receive_cases c reply
  · exact .inl ⟨hw, by rw [heq]⟩
  · exact .inr (.inl (by rw [heq]))
  · exact .inr (.inr (.inl (by rw [heq])))
  · exact .inr (.inr (.inr ⟨a, p, ha, hreply, hne, hnumber, by rw [heq, merge_fst]; rfl⟩))

@[simp] theorem awaited_receive (c : Conversation) (reply : Reply) :
    (c.receive reply).1.awaited = none := by
  obtain ⟨hw, heq⟩ | heq | heq | ⟨a, p, -, -, -, -, heq⟩ := receive_fst_cases c reply
  · rw [heq]
    exact hw
  · rw [heq]
    rfl
  · rw [heq]
    rfl
  · rw [heq]

/-! ## Asking and receiving in one step -/

/-- A fetch is a request and its reply, unless the request is refused. -/
theorem fetchOlder_fst_cases (c : Conversation) (source : PageRequest → Reply) :
    (c.fetchOlder source).1 = c ∨
      ∃ r, c.askOlder.2 = .ok r ∧
        (c.fetchOlder source).1 = (c.askOlder.1.receive (source r)).1 := by
  obtain ⟨failure, heq⟩ | ⟨r, -, heq, -⟩ := askOlder_cases c
  · exact .inl (by rw [fetchOlder, heq])
  · exact .inr ⟨r, by rw [heq], by rw [fetchOlder, heq]⟩

theorem fetchNewer_fst_cases (c : Conversation) (source : PageRequest → Reply) :
    (c.fetchNewer source).1 = c ∨ (c.fetchNewer source).1 = c.leaveHistory ∨
      ∃ r, c.askNewer.2 = .ok (.request r) ∧
        (c.fetchNewer source).1 = (c.askNewer.1.receive (source r)).1 := by
  obtain ⟨failure, heq⟩ | heq | ⟨h, -, -, -, heq⟩ := askNewer_cases c
  · exact .inl (by rw [fetchNewer, heq])
  · exact .inr (.inl (by rw [fetchNewer, heq]))
  · exact .inr (.inr ⟨_, by rw [heq], by rw [fetchNewer, heq]⟩)

/-! ## What an operation does to the history -/

/-- The operation takes page `p` in reply to the request `a`, which is made earlier or by the
operation itself. -/
inductive Takes (c : Conversation) : Operation → Awaited → Page → Prop
  | reply {a : Awaited} {p : Page} (ha : c.awaited = some a) : Takes c (.receive (.ok p)) a p
  | fetchOlder {source : PageRequest → Reply} {r : PageRequest} {a : Awaited} {p : Page}
      (hw : c.awaited = none) (hask : c.askOlder = ({ c with awaited := some a }, .ok r))
      (hp : source r = .ok p) : Takes c (.fetchOlder source) a p
  | fetchNewer {source : PageRequest → Reply} {r : PageRequest} {a : Awaited} {p : Page}
      (hw : c.awaited = none) (hask : c.askNewer = ({ c with awaited := some a }, .ok (.request r)))
      (hp : source r = .ok p) : Takes c (.fetchNewer source) a p

/-- What an operation does to the history of `c`, where `c'` is the conversation after it. -/
inductive HistoryStep (c : Conversation) (op : Operation) (c' : Conversation) : Prop
  | stays (hsame : c'.history = c.history)
  | goes (hgone : c'.history = none)
  | aligned {h : History} (hop : op = .realign) (hh : c.history = some h)
      (haligned : c'.history = some (h.align c.feed c.bounds.capacity).1)
  | grows {a : Awaited} {p : Page} (htakes : c.Takes op a p) (hne : p.entries ≠ [])
      (hnumber : ∀ n, a.number = some n → p.number = n)
      (hgrown : c' = { c with history := c.grown a.direction p, awaited := none })

theorem historyStep_receive (c : Conversation) (reply : Reply) :
    c.HistoryStep (.receive reply) (c.receive reply).1 := by
  obtain ⟨-, heq⟩ | heq | heq | ⟨a, p, ha, rfl, hne, hnumber, heq⟩ := receive_fst_cases c reply
  · rw [heq]
    exact .stays rfl
  · rw [heq]
    exact .stays rfl
  · rw [heq]
    exact .goes rfl
  · exact .grows (.reply ha) hne hnumber heq

/-- A reply to a request that the same operation made. -/
theorem historyStep_asked {c : Conversation} {op : Operation} {a : Awaited} {reply : Reply}
    (htakes : ∀ p, reply = .ok p → c.Takes op a p) :
    c.HistoryStep op (({ c with awaited := some a } : Conversation).receive reply).1 := by
  obtain ⟨hw, -⟩ | heq | heq | ⟨a', p, ha, hp, hne, hnumber, heq⟩ :=
    receive_fst_cases { c with awaited := some a } reply
  · cases hw
  · rw [heq]
    exact .stays rfl
  · rw [heq]
    exact .goes rfl
  · obtain rfl : a = a' := Option.some.inj ha
    exact .grows (htakes p hp) hne hnumber heq

theorem historyStep_fetchOlder (c : Conversation) (source : PageRequest → Reply) :
    c.HistoryStep (.fetchOlder source) (c.fetchOlder source).1 := by
  obtain ⟨failure, hask⟩ | ⟨r, hw, hask, -⟩ := askOlder_cases c
  · rw [fetchOlder, hask]
    exact .stays rfl
  · have htakes : ∀ p, source r = .ok p →
        c.Takes (.fetchOlder source) ⟨.older, r.number?⟩ p := by
      intro p hp
      exact .fetchOlder hw hask hp
    rw [fetchOlder, hask]
    exact historyStep_asked htakes

theorem historyStep_fetchNewer (c : Conversation) (source : PageRequest → Reply) :
    c.HistoryStep (.fetchNewer source) (c.fetchNewer source).1 := by
  obtain ⟨failure, hask⟩ | hask | ⟨h, hw, -, -, hask⟩ := askNewer_cases c
  · rw [fetchNewer, hask]
    exact .stays rfl
  · rw [fetchNewer, hask]
    exact .goes rfl
  · have htakes : ∀ p, source ⟨.number h.newer, .newer⟩ = .ok p →
        c.Takes (.fetchNewer source) ⟨.newer, some h.newer⟩ p := by
      intro p hp
      exact .fetchNewer hw hask hp
    rw [fetchNewer, hask]
    exact historyStep_asked htakes

/-- The history stays, goes, is aligned with the feed, or takes a page. -/
theorem historyStep_apply (c : Conversation) (op : Operation) :
    c.HistoryStep op (c.apply op).1 := by
  cases op with
  | push e => exact .stays rfl
  | restart entries => exact .goes rfl
  | clear => exact .goes rfl
  | memberJoined userId now => exact .stays rfl
  | memberLeft userId now => exact .stays rfl
  | deviceOnline deviceId userId now => exact .stays rfl
  | deviceOffline deviceId now =>
    show c.HistoryStep _ (c.deviceOffline deviceId now).1
    unfold deviceOffline
    split <;> exact .stays rfl
  | setDevices devices => exact .stays rfl
  | giveUp => exact .stays rfl
  | returnToLive => exact .goes rfl
  | realign =>
    show c.HistoryStep _ c.realign.1
    cases hh : c.history with
    | none =>
      rw [realign, hh]
      exact .stays rfl
    | some h =>
      rw [realign, hh]
      exact .aligned rfl hh rfl
  | askOlder =>
    show c.HistoryStep _ c.askOlder.1
    obtain ⟨failure, heq⟩ | ⟨r, -, heq, -⟩ := askOlder_cases c <;> rw [heq] <;> exact .stays rfl
  | askNewer =>
    show c.HistoryStep _ c.askNewer.1
    obtain ⟨failure, heq⟩ | heq | ⟨h, -, -, -, heq⟩ := askNewer_cases c
    · rw [heq]
      exact .stays rfl
    · rw [heq]
      exact .goes rfl
    · rw [heq]
      exact .stays rfl
  | receive reply => exact historyStep_receive c reply
  | fetchOlder source => exact historyStep_fetchOlder c source
  | fetchNewer source => exact historyStep_fetchNewer c source

/-! ## What an operation does to the feed -/

/-- The feed forgets what it holds before it takes what the operation brings. -/
def startsAgain : Operation → Bool
  | .restart _ => true
  | .clear => true
  | _ => false

/-- The entries that an operation brings to the feed. -/
def delivers (c : Conversation) : Operation → List Entry
  | .push e => [e]
  | .restart entries => entries
  | .memberJoined userId now => [.membership ⟨userId, now, true⟩]
  | .memberLeft userId now => [.membership ⟨userId, now, false⟩]
  | .deviceOnline deviceId userId now => [.device ⟨deviceId, userId, now, true⟩]
  | .deviceOffline deviceId now =>
    match c.devices.get? deviceId with
    | some userId => [.device ⟨deviceId, userId, now, false⟩]
    | none => []
  | _ => []

/-- Feed and bounds are the same. -/
def SameFeed (c c' : Conversation) : Prop := c'.feed = c.feed ∧ c'.bounds = c.bounds

theorem SameFeed.refl (c : Conversation) : c.SameFeed c := ⟨rfl, rfl⟩

theorem SameFeed.trans {c c' c'' : Conversation} (h : c.SameFeed c') (h' : c'.SameFeed c'') :
    c.SameFeed c'' :=
  ⟨h'.1.trans h.1, h'.2.trans h.2⟩

theorem sameFeed_askOlder (c : Conversation) : c.SameFeed c.askOlder.1 := by
  obtain ⟨failure, heq⟩ | ⟨r, -, heq, -⟩ := askOlder_cases c <;> rw [heq] <;> exact ⟨rfl, rfl⟩

theorem sameFeed_askNewer (c : Conversation) : c.SameFeed c.askNewer.1 := by
  obtain ⟨failure, heq⟩ | heq | ⟨h, -, -, -, heq⟩ := askNewer_cases c <;> rw [heq] <;>
    exact ⟨rfl, rfl⟩

theorem sameFeed_receive (c : Conversation) (reply : Reply) :
    c.SameFeed (c.receive reply).1 := by
  obtain ⟨-, heq⟩ | heq | heq | ⟨a, p, -, -, -, -, heq⟩ := receive_fst_cases c reply <;> rw [heq]
  all_goals exact ⟨rfl, rfl⟩

theorem sameFeed_realign (c : Conversation) : c.SameFeed c.realign.1 := by
  unfold realign
  split <;> exact ⟨rfl, rfl⟩

theorem sameFeed_fetchOlder (c : Conversation) (source : PageRequest → Reply) :
    c.SameFeed (c.fetchOlder source).1 := by
  obtain heq | ⟨r, -, heq⟩ := fetchOlder_fst_cases c source
  · rw [heq]
    exact .refl c
  · rw [heq]
    exact (sameFeed_askOlder c).trans (sameFeed_receive _ _)

theorem sameFeed_fetchNewer (c : Conversation) (source : PageRequest → Reply) :
    c.SameFeed (c.fetchNewer source).1 := by
  obtain heq | heq | ⟨r, -, heq⟩ := fetchNewer_fst_cases c source
  · rw [heq]
    exact .refl c
  · rw [heq]
    exact ⟨rfl, rfl⟩
  · rw [heq]
    exact (sameFeed_askNewer c).trans (sameFeed_receive _ _)

/-- Only delivery touches the feed. -/
theorem feed_apply (c : Conversation) (op : Operation) :
    (c.apply op).1.feed =
      (if startsAgain op then c.feed.clear else c.feed).pushAll (c.delivers op) := by
  cases op with
  | deviceOffline deviceId now =>
    show (c.deviceOffline deviceId now).1.feed = c.feed.pushAll (c.delivers _)
    cases hu : c.devices.get? deviceId <;> simp only [deviceOffline, delivers, hu] <;> rfl
  | askOlder => exact (sameFeed_askOlder c).1
  | askNewer => exact (sameFeed_askNewer c).1
  | receive reply => exact (sameFeed_receive c reply).1
  | realign => exact (sameFeed_realign c).1
  | fetchOlder source => exact (sameFeed_fetchOlder c source).1
  | fetchNewer source => exact (sameFeed_fetchNewer c source).1
  | _ => rfl

@[simp] theorem bounds_apply (c : Conversation) (op : Operation) :
    (c.apply op).1.bounds = c.bounds := by
  cases op with
  | deviceOffline deviceId now =>
    show (c.deviceOffline deviceId now).1.bounds = c.bounds
    unfold deviceOffline
    split <;> rfl
  | askOlder => exact (sameFeed_askOlder c).2
  | askNewer => exact (sameFeed_askNewer c).2
  | receive reply => exact (sameFeed_receive c reply).2
  | realign => exact (sameFeed_realign c).2
  | fetchOlder source => exact (sameFeed_fetchOlder c source).2
  | fetchNewer source => exact (sameFeed_fetchNewer c source).2
  | _ => rfl

theorem bounds_run (c : Conversation) (ops : List Operation) : (c.run ops).1.bounds = c.bounds :=
  run_keeps (P := fun c' => c'.bounds = c.bounds) (fun c' op h => (bounds_apply c' op).trans h) rfl
    ops

/-! ## How paging begins -/

/-- History is loaded or asked for. -/
def isPaging (c : Conversation) : Bool := c.history.isSome || c.isWaiting

theorem isPaging_of_history {c : Conversation} {h : History} (hh : c.history = some h) :
    c.isPaging = true := by
  rw [isPaging, hh]
  rfl

theorem isPaging_of_awaited {c : Conversation} {a : Awaited} (ha : c.awaited = some a) :
    c.isPaging = true := by
  rw [isPaging, isWaiting, ha]
  exact Bool.or_true _

theorem isPaging_askOlder {c : Conversation} (h : c.askOlder.1.isPaging = true) :
    c.isPaging = true ∨ c.feed.anchor?.isSome = true := by
  obtain ⟨failure, heq⟩ | ⟨r, -, -, hrequest⟩ := askOlder_cases c
  · rw [heq] at h
    exact .inl h
  · cases hh : c.history with
    | none =>
      rw [hh] at hrequest
      exact .inr hrequest.2
    | some h => exact .inl (isPaging_of_history hh)

theorem isPaging_askNewer {c : Conversation} (h : c.askNewer.1.isPaging = true) :
    c.isPaging = true := by
  obtain ⟨failure, heq⟩ | heq | ⟨h₀, -, hh, -, -⟩ := askNewer_cases c
  · rw [heq] at h
    exact h
  · rw [heq] at h
    cases h
  · exact isPaging_of_history hh

theorem isPaging_receive {c : Conversation} {reply : Reply}
    (h : (c.receive reply).1.isPaging = true) : c.isPaging = true := by
  obtain ⟨-, heq⟩ | heq | heq | ⟨a, p, ha, -, -, -, -⟩ := receive_fst_cases c reply
  · rw [heq] at h
    exact h
  · rw [heq, isPaging, giveUp, isWaiting, Option.isSome_none, Bool.or_false] at h
    rw [isPaging, h]
    rfl
  · rw [heq] at h
    cases h
  · exact isPaging_of_awaited ha

/-- Paging begins from a feed that holds a message, and ends where the feed starts again. -/
theorem isPaging_apply {c : Conversation} {op : Operation} (h : (c.apply op).1.isPaging = true) :
    startsAgain op = false ∧ (c.isPaging = true ∨ c.feed.anchor?.isSome = true) := by
  cases op with
  | restart entries => cases h
  | clear => cases h
  | returnToLive => cases h
  | deviceOffline deviceId now =>
    refine ⟨rfl, .inl ?_⟩
    change (c.deviceOffline deviceId now).1.isPaging = true at h
    unfold deviceOffline at h
    split at h <;> exact h
  | giveUp =>
    change (c.history.isSome || false) = true at h
    rw [Bool.or_false] at h
    refine ⟨rfl, .inl ?_⟩
    rw [isPaging, h]
    rfl
  | realign =>
    refine ⟨rfl, .inl ?_⟩
    cases hh : c.history with
    | none =>
      have heq : (c.apply .realign).1 = c := by simp [apply, realign, hh]
      rwa [heq] at h
    | some h₀ => exact isPaging_of_history hh
  | askOlder => exact ⟨rfl, isPaging_askOlder h⟩
  | askNewer => exact ⟨rfl, .inl (isPaging_askNewer h)⟩
  | receive reply => exact ⟨rfl, .inl (isPaging_receive h)⟩
  | fetchOlder source =>
    change (c.fetchOlder source).1.isPaging = true at h
    refine ⟨rfl, ?_⟩
    obtain heq | ⟨r, -, heq⟩ := fetchOlder_fst_cases c source
    · rw [heq] at h
      exact .inl h
    · rw [heq] at h
      exact isPaging_askOlder (isPaging_receive h)
  | fetchNewer source =>
    change (c.fetchNewer source).1.isPaging = true at h
    refine ⟨rfl, .inl ?_⟩
    obtain heq | heq | ⟨r, -, heq⟩ := fetchNewer_fst_cases c source
    · rw [heq] at h
      exact h
    · rw [heq] at h
      cases h
    · rw [heq] at h
      exact isPaging_askNewer (isPaging_receive h)
  | _ => exact ⟨rfl, .inl h⟩

end Conversation

end Timeline
