import Timeline.Proofs.Messages
import Timeline.Proofs.Renaming
import Timeline.Proofs.Steps

/-!
# Message ids carry no meaning

Nothing that a conversation does depends on what an entry holds beyond this: whether it is a
message, and which other messages have the same id.

**Two runs.** Conversations correspond (`Conversation.Renamed`) if their feeds and histories do and
all else is the same but for the users of devices. Operations that bring corresponding entries
(`Operation.Renamed`) keep the correspondence, and have the same outcomes up to the ids in requests
(`apply_renamed`).

Main statement: `run_renamed`.
-/

namespace Timeline

variable {f : String → String}

/-! ## Devices -/

namespace Table

variable {α : Type} {t t' : Table α}

/-- The pairs have the same key. -/
def SameKey (p q : String × α) : Prop := q.1 = p.1

/-- The tables have the same keys in the same places. -/
def SameKeys (t t' : Table α) : Prop := List.Forall₂ SameKey t.pairs t'.pairs

theorem sameKey_place {ps qs : List (String × α)} (h : List.Forall₂ SameKey ps qs) (key : String)
    (value value' : α) : List.Forall₂ SameKey (place key value ps) (place key value' qs) := by
  induction h with
  | nil => exact .cons rfl .nil
  | @cons p q ps qs hkey hrest ih =>
    obtain ⟨k, v⟩ := p
    obtain ⟨k', v'⟩ := q
    obtain rfl : k' = k := hkey
    simp only [place]
    split
    · exact .cons rfl (.cons rfl hrest)
    · split
      · exact .cons rfl hrest
      · exact .cons rfl ih

theorem SameKeys.insert (h : t.SameKeys t') (key : String) (value value' : α) :
    (t.insert key value).SameKeys (t'.insert key value') :=
  sameKey_place h key value value'

theorem SameKeys.erase (h : t.SameKeys t') (key : String) :
    (t.erase key).SameKeys (t'.erase key) := by
  refine List.rel_filter ?_ h
  intro p q hkey
  show (p.1 != key) = true ↔ (q.1 != key) = true
  rw [show q.1 = p.1 from hkey]

theorem SameKeys.isSome_get? (h : t.SameKeys t') (key : String) :
    (t'.get? key).isSome = (t.get? key).isSome := by
  rw [Table.get?, Table.get?, Option.isSome_map, Option.isSome_map, List.isSome_find?,
    List.isSome_find?]
  refine any_eq_of_forall₂ ?_ h
  intro p q hkey
  rw [show q.1 = p.1 from hkey]

theorem sameKeys_ofList {ps qs : List (String × α)} (h : List.Forall₂ SameKey ps qs) :
    (ofList ps).SameKeys (ofList qs) := by
  refine List.rel_foldl ?_ (show Table.empty.SameKeys Table.empty from .nil) h
  intro t t' ht p q hkey
  show (t.insert p.1 p.2).SameKeys (t'.insert q.1 q.2)
  rw [show q.1 = p.1 from hkey]
  exact ht.insert _ _ _

end Table

/-! ## Conversations -/

/-- Conversations of the same bounds that await the same page, whose feeds and histories
correspond, and whose devices are the same. -/
structure Conversation.Renamed (f : String → String) (c d : Conversation) : Prop where
  bounds : d.bounds = c.bounds
  feed : c.feed.Renamed f d.feed
  history : Option.Rel (fun h k : History => h.Renamed f k) c.history d.history
  awaited : d.awaited = c.awaited
  devices : c.devices.SameKeys d.devices

/-- A reply brings a corresponding page, or the same failure. -/
inductive Reply.Renamed (f : String → String) : Reply → Reply → Prop
  | page {p q : Page} (hp : p.Renamed f q) : Reply.Renamed f (.ok p) (.ok q)
  | failure (reason : String) : Reply.Renamed f (.error reason) (.error reason)

/-- The request for the page of the renamed message, or of the same number. -/
def PageRequest.rename (f : String → String) (r : PageRequest) : PageRequest :=
  { r with anchor := match r.anchor with
    | .message id => .message (f id)
    | .number n => .number n }

def Forward.rename (f : String → String) : Forward → Forward
  | .request r => .request (r.rename f)
  | .backToLive => .backToLive

/-- The same outcome, with renamed ids in requests. -/
def Outcome.rename (f : String → String) : Outcome → Outcome
  | .askedOlder result => .askedOlder (result.map (PageRequest.rename f))
  | .askedNewer result => .askedNewer (result.map (Forward.rename f))
  | .fetched fetch => .fetched { fetch with asked := fetch.asked.map (PageRequest.rename f) }
  | outcome => outcome

/-- The same operation, with corresponding entries. Notices may be about other users and be made at
other times. -/
inductive Operation.Renamed (f : String → String) : Operation → Operation → Prop
  | push {e e' : Entry} (he : e.Renamed f e') : Operation.Renamed f (.push e) (.push e')
  | restart {es es' : List Entry} (hes : Timeline.Renamed f es es') :
      Operation.Renamed f (.restart es) (.restart es')
  | clear : Operation.Renamed f .clear .clear
  | memberJoined (userId userId' : String) (now now' : Nat) :
      Operation.Renamed f (.memberJoined userId now) (.memberJoined userId' now')
  | memberLeft (userId userId' : String) (now now' : Nat) :
      Operation.Renamed f (.memberLeft userId now) (.memberLeft userId' now')
  | deviceOnline (deviceId userId userId' : String) (now now' : Nat) :
      Operation.Renamed f (.deviceOnline deviceId userId now) (.deviceOnline deviceId userId' now')
  | deviceOffline (deviceId : String) (now now' : Nat) :
      Operation.Renamed f (.deviceOffline deviceId now) (.deviceOffline deviceId now')
  | setDevices {devices devices' : List (String × String)}
      (hkeys : List.Forall₂ Table.SameKey devices devices') :
      Operation.Renamed f (.setDevices devices) (.setDevices devices')
  | askOlder : Operation.Renamed f .askOlder .askOlder
  | askNewer : Operation.Renamed f .askNewer .askNewer
  | receive {reply reply' : Reply} (hreply : Reply.Renamed f reply reply') :
      Operation.Renamed f (.receive reply) (.receive reply')
  | giveUp : Operation.Renamed f .giveUp .giveUp
  | returnToLive : Operation.Renamed f .returnToLive .returnToLive
  | realign : Operation.Renamed f .realign .realign
  | fetchOlder {source source' : PageRequest → Reply}
      (hsource : ∀ r, Reply.Renamed f (source r) (source' (r.rename f))) :
      Operation.Renamed f (.fetchOlder source) (.fetchOlder source')
  | fetchNewer {source source' : PageRequest → Reply}
      (hsource : ∀ r, Reply.Renamed f (source r) (source' (r.rename f))) :
      Operation.Renamed f (.fetchNewer source) (.fetchNewer source')

namespace Conversation

variable {c d : Conversation}

theorem renamed_empty (f : String → String) (poolId poolId' : String) (bounds : Bounds) :
    (empty poolId bounds).Renamed f (empty poolId' bounds) :=
  ⟨rfl, Feed.renamed_empty f _, .none, rfl, .nil⟩

theorem Renamed.history_cases (h : c.Renamed f d) :
    (c.history = none ∧ d.history = none) ∨
      ∃ x y, c.history = some x ∧ d.history = some y ∧ x.Renamed f y := by
  have hhistory := h.history
  cases hc : c.history with
  | none =>
    rw [hc] at hhistory
    cases hd : d.history with
    | none => exact .inl ⟨rfl, rfl⟩
    | some y =>
      rw [hd] at hhistory
      cases hhistory
  | some x =>
    rw [hc] at hhistory
    cases hd : d.history with
    | none =>
      rw [hd] at hhistory
      cases hhistory
    | some y =>
      rw [hd] at hhistory
      cases hhistory with
      | some hr => exact .inr ⟨x, y, rfl, rfl, hr⟩

/-! ### What is shown -/

theorem Renamed.isWaiting (h : c.Renamed f d) : d.isWaiting = c.isWaiting := by
  rw [Conversation.isWaiting, Conversation.isWaiting, h.awaited]

theorem Renamed.mode (h : c.Renamed f d) : d.mode = c.mode := by
  rw [Conversation.mode, Conversation.mode]
  obtain ⟨hc, hd⟩ | ⟨x, y, hc, hd, -⟩ := h.history_cases <;> rw [hc, hd]

theorem Renamed.shown (h : c.Renamed f d) : Timeline.Renamed f c.shown d.shown := by
  rw [Conversation.shown, Conversation.shown]
  obtain ⟨hc, hd⟩ | ⟨x, y, hc, hd, hr⟩ := h.history_cases
  · rw [hc, hd]
    exact h.feed.entries
  · rw [hc, hd]
    exact hr.entries

theorem Renamed.canGoOlder (h : c.Renamed f d) : d.canGoOlder = c.canGoOlder := by
  rw [Conversation.canGoOlder, Conversation.canGoOlder]
  obtain ⟨hc, hd⟩ | ⟨x, y, hc, hd, hr⟩ := h.history_cases
  · simp only [hc, hd, h.feed.anchor?, Option.isSome_map]
  · simp only [hc, hd, hr.older?]

theorem Renamed.canGoNewer (h : c.Renamed f d) : d.canGoNewer = c.canGoNewer := by
  rw [Conversation.canGoNewer, Conversation.canGoNewer]
  obtain ⟨hc, hd⟩ | ⟨x, y, hc, hd, hr⟩ := h.history_cases
  · rw [hc, hd]
  · simp only [hc, hd, hr.atPresent]

theorem Renamed.feedTakesOver (hf : Function.Injective f) (h : c.Renamed f d) :
    d.feedTakesOver = c.feedTakesOver := by
  rw [Conversation.feedTakesOver, Conversation.feedTakesOver]
  obtain ⟨hc, hd⟩ | ⟨x, y, hc, hd, hr⟩ := h.history_cases
  · rw [hc, hd]
  · simp only [hc, hd, h.bounds, hr.overlapsFrom hf h.feed]

/-! ### Operations -/

theorem Renamed.push (h : c.Renamed f d) {e e' : Entry} (he : e.Renamed f e') :
    (c.push e).Renamed f (d.push e') :=
  { h with feed := h.feed.push he }

theorem Renamed.restart (h : c.Renamed f d) {es es' : List Entry}
    (hes : Timeline.Renamed f es es') : (c.restart es).Renamed f (d.restart es') :=
  ⟨h.bounds, h.feed.clear.pushAll hes, .none, rfl, h.devices⟩

theorem Renamed.leaveHistory (h : c.Renamed f d) : c.leaveHistory.Renamed f d.leaveHistory :=
  { h with history := .none, awaited := rfl }

theorem Renamed.clear (h : c.Renamed f d) : c.clear.Renamed f d.clear :=
  ⟨h.bounds, h.feed.clear, .none, rfl, .nil⟩

theorem Renamed.giveUp (h : c.Renamed f d) : c.giveUp.Renamed f d.giveUp :=
  { h with awaited := rfl }

theorem Renamed.deviceOnline (h : c.Renamed f d) (deviceId userId userId' : String)
    (now now' : Nat) : (c.deviceOnline deviceId userId now).Renamed f
      (d.deviceOnline deviceId userId' now') :=
  ⟨h.bounds, h.feed.push rfl, h.history, h.awaited, h.devices.insert deviceId userId userId'⟩

theorem Renamed.deviceOffline (h : c.Renamed f d) (deviceId : String) (now now' : Nat) :
    (c.deviceOffline deviceId now).1.Renamed f (d.deviceOffline deviceId now').1 ∧
      (d.deviceOffline deviceId now').2 = (c.deviceOffline deviceId now).2 := by
  have hknown := h.devices.isSome_get? deviceId
  rw [Conversation.deviceOffline, Conversation.deviceOffline]
  cases hc : c.devices.get? deviceId with
  | none =>
    rw [hc, Option.isSome_none, Option.isSome_eq_false_iff, Option.isNone_iff_eq_none] at hknown
    rw [hknown]
    exact ⟨h, rfl⟩
  | some userId =>
    rw [hc, Option.isSome_some] at hknown
    obtain ⟨userId', hd⟩ := Option.isSome_iff_exists.1 hknown
    rw [hd]
    exact ⟨⟨h.bounds, h.feed.push rfl, h.history, h.awaited, h.devices.erase deviceId⟩, rfl⟩

theorem Renamed.askOlder (h : c.Renamed f d) :
    c.askOlder.1.Renamed f d.askOlder.1 ∧
      d.askOlder.2 = c.askOlder.2.map (PageRequest.rename f) := by
  rw [Conversation.askOlder, Conversation.askOlder, h.isWaiting]
  split
  · exact ⟨h, rfl⟩
  · obtain ⟨hc, hd⟩ | ⟨x, y, hc, hd, hr⟩ := h.history_cases
    · simp only [hc, hd, h.feed.anchor?]
      cases c.feed.anchor? with
      | none => exact ⟨h, rfl⟩
      | some anchor => exact ⟨⟨h.bounds, h.feed, .none, rfl, h.devices⟩, rfl⟩
    · simp only [hc, hd, hr.older?]
      cases x.older? with
      | none => exact ⟨h, rfl⟩
      | some n => exact ⟨⟨h.bounds, h.feed, .some hr, rfl, h.devices⟩, rfl⟩

theorem Renamed.askNewer (hf : Function.Injective f) (h : c.Renamed f d) :
    c.askNewer.1.Renamed f d.askNewer.1 ∧
      d.askNewer.2 = c.askNewer.2.map (Forward.rename f) := by
  rw [Conversation.askNewer, Conversation.askNewer, h.isWaiting]
  split
  · exact ⟨h, rfl⟩
  · obtain ⟨hc, hd⟩ | ⟨x, y, hc, hd, hr⟩ := h.history_cases
    · simp only [hc, hd]
      exact ⟨h, rfl⟩
    · simp only [hc, hd, hr.atPresent, hr.newer, h.feedTakesOver hf]
      split
      · split
        · exact ⟨h.leaveHistory, rfl⟩
        · exact ⟨h, rfl⟩
      · exact ⟨⟨h.bounds, h.feed, .some hr, rfl, h.devices⟩, rfl⟩

theorem Renamed.alignedAtPresent (hf : Function.Injective f) (h : c.Renamed f d) {x y : History}
    (hr : x.Renamed f y) : (c.alignedAtPresent x).Renamed f (d.alignedAtPresent y) := by
  rw [Conversation.alignedAtPresent, Conversation.alignedAtPresent, hr.atPresent, h.bounds]
  split
  · exact (hr.align hf h.feed _).1
  · exact hr

theorem Renamed.merge (hf : Function.Injective f) (h : c.Renamed f d) {p q : Page}
    (hp : p.Renamed f q) (direction : Direction) :
    (c.merge direction p).1.Renamed f (d.merge direction q).1 ∧
      (d.merge direction q).2 = (c.merge direction p).2 := by
  unfold Conversation.merge
  obtain ⟨hc, hd⟩ | ⟨x, y, hc, hd, hr⟩ := h.history_cases
  · cases direction with
    | older =>
      have hpage : (History.ofPage p).Renamed f (History.ofPage q) := .ofPage hp
      have hopened := h.alignedAtPresent hf hpage
      simp only [hc, hd, hopened.older?]
      exact ⟨⟨h.bounds, h.feed, .some hopened, h.awaited, h.devices⟩, trivial⟩
    | newer =>
      simp only [hc, hd]
      exact ⟨h, trivial⟩
  · cases direction with
    | older =>
      have hgrown := hr.pushFront hp c.bounds.capacity
      simp only [hc, hd, h.bounds, hgrown.older?]
      exact ⟨⟨rfl, h.feed, .some hgrown, h.awaited, h.devices⟩, trivial⟩
    | newer =>
      have hgrown := h.alignedAtPresent hf (hr.pushBack hp c.bounds.capacity)
      simp only [hc, hd, h.bounds, hgrown.atPresent]
      exact ⟨⟨rfl, h.feed, .some hgrown, h.awaited, h.devices⟩, trivial⟩

theorem misfit?_renamed {p q : Page} (hp : p.Renamed f q) (a : Awaited) :
    a.misfit? q = a.misfit? p := by
  rw [Awaited.misfit?, Awaited.misfit?, hp.number, hp.isEmpty]

theorem Renamed.receive (hf : Function.Injective f) (h : c.Renamed f d) {reply reply' : Reply}
    (hreply : Reply.Renamed f reply reply') :
    (c.receive reply).1.Renamed f (d.receive reply').1 ∧
      (d.receive reply').2 = (c.receive reply).2 := by
  rw [Conversation.receive, Conversation.receive, h.awaited]
  cases c.awaited with
  | none => exact ⟨h, rfl⟩
  | some a =>
    cases hreply with
    | failure reason => exact ⟨h.giveUp, rfl⟩
    | page hp =>
      simp only [misfit?_renamed hp]
      split
      · exact ⟨h.leaveHistory, rfl⟩
      · exact h.giveUp.merge hf hp a.direction

theorem Renamed.realign (hf : Function.Injective f) (h : c.Renamed f d) :
    c.realign.1.Renamed f d.realign.1 ∧ d.realign.2 = c.realign.2 := by
  rw [Conversation.realign, Conversation.realign]
  obtain ⟨hc, hd⟩ | ⟨x, y, hc, hd, hr⟩ := h.history_cases
  · simp only [hc, hd]
    exact ⟨h, trivial⟩
  · obtain ⟨haligned, hsame⟩ := hr.align hf h.feed c.bounds.capacity
    simp only [hc, hd, h.bounds]
    exact ⟨⟨rfl, h.feed, .some haligned, h.awaited, h.devices⟩, congrArg some hsame⟩

theorem Renamed.fetchOlder (hf : Function.Injective f) (h : c.Renamed f d)
    {source source' : PageRequest → Reply}
    (hsource : ∀ r, Reply.Renamed f (source r) (source' (r.rename f))) :
    (c.fetchOlder source).1.Renamed f (d.fetchOlder source').1 ∧
      Outcome.fetched (d.fetchOlder source').2 =
        (Outcome.fetched (c.fetchOlder source).2).rename f := by
  have hask := h.askOlder
  rw [Conversation.fetchOlder, Conversation.fetchOlder]
  rcases hc : c.askOlder with ⟨c', result⟩
  rcases hd : d.askOlder with ⟨d', result'⟩
  rw [hc, hd] at hask
  obtain ⟨hasked, rfl⟩ := hask
  cases result with
  | error failure => exact ⟨hasked, rfl⟩
  | ok r =>
    obtain ⟨hreceived, hsame⟩ := hasked.receive hf (hsource r)
    exact ⟨hreceived, congrArg (fun result => Outcome.fetched ⟨some (r.rename f), result⟩) hsame⟩

theorem Renamed.fetchNewer (hf : Function.Injective f) (h : c.Renamed f d)
    {source source' : PageRequest → Reply}
    (hsource : ∀ r, Reply.Renamed f (source r) (source' (r.rename f))) :
    (c.fetchNewer source).1.Renamed f (d.fetchNewer source').1 ∧
      Outcome.fetched (d.fetchNewer source').2 =
        (Outcome.fetched (c.fetchNewer source).2).rename f := by
  have hask := h.askNewer hf
  rw [Conversation.fetchNewer, Conversation.fetchNewer]
  rcases hc : c.askNewer with ⟨c', result⟩
  rcases hd : d.askNewer with ⟨d', result'⟩
  rw [hc, hd] at hask
  obtain ⟨hasked, rfl⟩ := hask
  cases result with
  | error failure => exact ⟨hasked, rfl⟩
  | ok step =>
    cases step with
    | backToLive => exact ⟨hasked, rfl⟩
    | request r =>
      obtain ⟨hreceived, hsame⟩ := hasked.receive hf (hsource r)
      exact ⟨hreceived, congrArg (fun result => Outcome.fetched ⟨some (r.rename f), result⟩) hsame⟩

/-- One operation keeps the correspondence and has the same outcome. -/
theorem apply_renamed (hf : Function.Injective f) (h : c.Renamed f d) {op op' : Operation}
    (hop : op.Renamed f op') :
    (c.apply op).1.Renamed f (d.apply op').1 ∧ (d.apply op').2 = (c.apply op).2.rename f := by
  cases hop with
  | push he => exact ⟨h.push he, rfl⟩
  | restart hes => exact ⟨h.restart hes, rfl⟩
  | clear => exact ⟨h.clear, rfl⟩
  | memberJoined => exact ⟨h.push rfl, rfl⟩
  | memberLeft => exact ⟨h.push rfl, rfl⟩
  | deviceOnline deviceId => exact ⟨h.deviceOnline deviceId _ _ _ _, rfl⟩
  | deviceOffline deviceId =>
    obtain ⟨hafter, hknown⟩ := h.deviceOffline deviceId _ _
    exact ⟨hafter, congrArg Outcome.wasOnline hknown⟩
  | setDevices hkeys => exact ⟨{ h with devices := Table.sameKeys_ofList hkeys }, rfl⟩
  | askOlder =>
    obtain ⟨hafter, hresult⟩ := h.askOlder
    exact ⟨hafter, congrArg Outcome.askedOlder hresult⟩
  | askNewer =>
    obtain ⟨hafter, hresult⟩ := h.askNewer hf
    exact ⟨hafter, congrArg Outcome.askedNewer hresult⟩
  | receive hreply =>
    obtain ⟨hafter, hresult⟩ := h.receive hf hreply
    exact ⟨hafter, congrArg Outcome.received hresult⟩
  | giveUp => exact ⟨h.giveUp, rfl⟩
  | returnToLive =>
    refine ⟨h.leaveHistory, congrArg Outcome.live ?_⟩
    rw [h.feed.anchor?, Option.isSome_map]
  | realign =>
    obtain ⟨hafter, hresult⟩ := h.realign hf
    exact ⟨hafter, congrArg Outcome.aligned hresult⟩
  | fetchOlder hsource => exact h.fetchOlder hf hsource
  | fetchNewer hsource => exact h.fetchNewer hf hsource

theorem Renamed.run (hf : Function.Injective f) {ops ops' : List Operation}
    (hops : List.Forall₂ (Operation.Renamed f) ops ops') (h : c.Renamed f d) :
    (c.run ops).1.Renamed f (d.run ops').1 ∧
      (d.run ops').2 = (c.run ops).2.map (Outcome.rename f) := by
  induction hops generalizing c d with
  | nil => exact ⟨h, rfl⟩
  | cons hop _ ih =>
    obtain ⟨hnext, houtcome⟩ := apply_renamed hf h hop
    obtain ⟨hlast, houtcomes⟩ := ih hnext
    exact ⟨hlast, congrArg₂ List.cons houtcome houtcomes⟩

/-- **Opaque ids.** Two runs that do the same with corresponding entries have the same outcomes up
to the ids in requests. They end in corresponding conversations, which show corresponding entries
and offer the same. -/
theorem run_renamed (hf : Function.Injective f) (poolId poolId' : String) (bounds : Bounds)
    {ops ops' : List Operation} (hops : List.Forall₂ (Operation.Renamed f) ops ops') :
    let c := (empty poolId bounds).run ops
    let d := (empty poolId' bounds).run ops'
    d.2 = c.2.map (Outcome.rename f) ∧ c.1.Renamed f d.1 ∧
      Timeline.Renamed f c.1.shown d.1.shown ∧ d.1.mode = c.1.mode ∧
      d.1.canGoOlder = c.1.canGoOlder ∧ d.1.canGoNewer = c.1.canGoNewer ∧
      d.1.feedTakesOver = c.1.feedTakesOver := by
  intro c d
  obtain ⟨hlast, houtcomes⟩ := (renamed_empty f poolId poolId' bounds).run hf hops
  exact ⟨houtcomes, hlast, hlast.shown, hlast.mode, hlast.canGoOlder, hlast.canGoNewer,
    hlast.feedTakesOver hf⟩

/-- Two messages have the same id, and a notice between them is evicted. The newest page is loaded
and aligned with the feed. After one more message the feed begins elsewhere, and takes over. -/
def takenOver (message : String → Entry) (notice : Entry) : List Operation :=
  [.push (message "m2"), .push notice, .push (message "m3"), .push (message "m2"), .askOlder,
    .receive (.ok (Page.asNewest (.numbered 1 [message "m1", notice, message "m2"]))),
    .push (message "m4"), .realign, .askNewer]

/-- Other ids, bodies and notices lead to the same. -/
theorem run_renamed_takenOver :
    let f := fun id => "other " ++ id
    let ops := takenOver (fun id => .message (.ofId id)) (.membership ⟨"bob", 0, true⟩)
    let ops' := takenOver (fun id => .message ⟨f id, "carol", 7, .bool true⟩)
      (.device ⟨"phone", "dave", 9, false⟩)
    let c := (empty "pool" (.ofCapacity 3)).run ops
    let d := (empty "pool" (.ofCapacity 3)).run ops'
    Function.Injective f ∧ List.Forall₂ (Operation.Renamed f) ops ops' ∧
      d.2 = c.2.map (Outcome.rename f) ∧ c.1.Renamed f d.1 ∧
      d.1.shown.map Entry.id? = [some (f "m3"), some (f "m2"), some (f "m4")] := by
  intro f ops ops' c d
  have hf : Function.Injective f := by
    intro id id' h
    exact (String.append_right_inj "other ").1 h
  have hops : List.Forall₂ (Operation.Renamed f) ops ops' :=
    .cons (.push rfl) (.cons (.push rfl) (.cons (.push rfl) (.cons (.push rfl) (.cons .askOlder
      (.cons (.receive (.page ⟨rfl, .cons rfl (.cons rfl (.cons rfl .nil)), rfl, rfl⟩))
        (.cons (.push rfl) (.cons .realign (.cons .askNewer .nil))))))))
  obtain ⟨houtcomes, hlast, -⟩ := run_renamed hf "pool" "pool" (.ofCapacity 3) hops
  exact ⟨hf, hops, houtcomes, hlast, by decide⟩

end Conversation

end Timeline
