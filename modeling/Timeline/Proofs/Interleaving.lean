import Timeline.Proofs.Messages
import Timeline.Proofs.Steps
import Timeline.Proofs.Trimming

/-!
# Deliveries around a reply

While a page is on its way, entries and notices go on to arrive, and nothing fixes which comes
first.

**Two halves** (`joined`). A delivery reads and changes the feed and the devices, a reply the
history and the request; so a conversation is put together from the live half of one and the paging
half of another, and each kind of operation acts on its own half (`run_joined`, `receive_joined`).

**Where the halves meet** (`LeavesFeedOut`). A page that reaches the present is aligned with the
feed as it then is. Every other reply leaves the feed out of account, and also a page that goes in
front of a loaded history.

Main statement: `deliveries_commute`.
-/

namespace Timeline

/-- Something arrives at the feed, or the devices that are online are set. -/
def Operation.isDelivery : Operation → Bool
  | .push _ => true
  | .memberJoined _ _ => true
  | .memberLeft _ _ => true
  | .deviceOnline _ _ _ => true
  | .deviceOffline _ _ => true
  | .setDevices _ => true
  | _ => false

theorem History.atPresent_pushBack (h : History) (p : Page) (capacity : Nat) :
    (h.pushBack p capacity).atPresent = p.isNewest := by
  obtain ⟨-, hshort, -⟩ := (h.joinBack p).trimFront_spec capacity
  exact hshort.atPresent

namespace Conversation

/-- Feed and devices of `live`, with the history and the request of `paging`. -/
def joined (live paging : Conversation) : Conversation :=
  { live with history := paging.history, awaited := paging.awaited }

/-- The reply is taken without a look at the feed: nothing was read, the page does not reach the
present, or it goes in front of a loaded history. -/
inductive LeavesFeedOut (c : Conversation) : Reply → Prop
  | failed (reason : String) : LeavesFeedOut c (.error reason)
  | past {p : Page} (hp : p.isNewest = false) : LeavesFeedOut c (.ok p)
  | inFront {p : Page} {h : History} {a : Awaited} (hh : c.history = some h)
      (ha : c.awaited = some a) (holder : a.direction = .older) : LeavesFeedOut c (.ok p)

/-! ## Deliveries -/

/-- A delivery acts on the live half. -/
theorem apply_joined {op : Operation} (hop : op.isDelivery = true) (live paging : Conversation) :
    (live.joined paging).apply op =
      ((live.apply op).1.joined paging, (live.apply op).2) := by
  cases op with
  | deviceOffline deviceId now =>
    simp only [apply, deviceOffline, joined]
    cases live.devices.get? deviceId <;> rfl
  | push e => rfl
  | memberJoined userId now => rfl
  | memberLeft userId now => rfl
  | deviceOnline deviceId userId now => rfl
  | setDevices devices => rfl
  | _ => cases hop

theorem run_joined {ds : List Operation} (hds : ∀ op ∈ ds, op.isDelivery = true)
    (live paging : Conversation) :
    (live.joined paging).run ds = ((live.run ds).1.joined paging, (live.run ds).2) := by
  induction ds generalizing live with
  | nil => rfl
  | cons op ds ih =>
    obtain ⟨hop, hrest⟩ := List.forall_mem_cons.1 hds
    simp only [run, apply_joined hop, ih hrest]

/-- Deliveries leave the paging half as it was. -/
theorem joined_run {ds : List Operation} (hds : ∀ op ∈ ds, op.isDelivery = true)
    (c : Conversation) : (c.run ds).1.joined c = (c.run ds).1 :=
  (congrArg Prod.fst (run_joined hds c c)).symm

/-! ## The reply -/

/-- A reply leaves the live half as it was. -/
theorem joined_receive (c : Conversation) (reply : Reply) :
    c.joined (c.receive reply).1 = (c.receive reply).1 := by
  obtain ⟨-, heq⟩ | heq | heq | ⟨a, p, -, -, -, -, heq⟩ := receive_fst_cases c reply <;> rw [heq]
  all_goals rfl

theorem alignedAtPresent_of_not_atPresent (c : Conversation) {h : History}
    (hp : h.atPresent = false) : c.alignedAtPresent h = h := by
  rw [alignedAtPresent, hp]
  rfl

/-- A page that fits acts on the paging half. Only where it reaches the present and does not go in
front of a history could the feed make a difference. -/
theorem merge_joined (live paging : Conversation) (hbounds : live.bounds = paging.bounds)
    {direction : Direction} {p : Page}
    (hp : p.isNewest = false ∨ paging.history.isSome = true ∧ direction = .older) :
    (live.joined paging).merge direction p =
      (live.joined (paging.merge direction p).1, (paging.merge direction p).2) := by
  cases hh : paging.history with
  | some h =>
    cases direction with
    | older => simp [merge, joined, hh, hbounds]
    | newer =>
      have hpast : p.isNewest = false := by simpa using hp
      have hpresent : (h.pushBack p paging.bounds.capacity).atPresent = false := by
        rw [History.atPresent_pushBack, hpast]
      simp [merge, joined, hh, hbounds, alignedAtPresent_of_not_atPresent _ hpresent]
  | none =>
    cases direction with
    | older =>
      have hpast : p.isNewest = false := by simpa [hh] using hp
      simp [merge, joined, hh, alignedAtPresent_of_not_atPresent _ (h := .ofPage p) hpast]
    | newer => simp [merge, joined, hh]

theorem receive_joined {live paging : Conversation} (hbounds : live.bounds = paging.bounds)
    {reply : Reply} (hreply : paging.LeavesFeedOut reply) :
    (live.joined paging).receive reply =
      (live.joined (paging.receive reply).1, (paging.receive reply).2) := by
  have hawaited : (live.joined paging).awaited = paging.awaited := rfl
  unfold receive
  rw [hawaited]
  cases ha : paging.awaited with
  | none => rfl
  | some a =>
    cases reply with
    | error reason => rfl
    | ok p =>
      cases hm : a.misfit? p with
      | some failure => simp only [hm]; rfl
      | none =>
        simp only [hm]
        refine merge_joined live.giveUp paging.giveUp hbounds ?_
        cases hreply with
        | past hp => exact .inl hp
        | inFront hh ha' holder =>
          obtain rfl : a = _ := Option.some.inj (ha.symm.trans ha')
          exact .inr ⟨by rw [giveUp, hh]; rfl, holder⟩

/-- **Deliveries and a reply commute.** Whatever arrives while a page is awaited, a reply that
leaves the feed out leads to the same conversation before and after it, and all answers are the
same. In any case deliveries leave the history and the request as they are, and the reply leaves the
feed and the devices. -/
theorem deliveries_commute (c : Conversation) (reply : Reply) (ds : List Operation)
    (hds : ∀ op ∈ ds, op.isDelivery = true) :
    let delivered := c.run ds
    let received := c.receive reply
    (c.LeavesFeedOut reply → ∃ both,
        delivered.1.receive reply = (both, received.2) ∧
          received.1.run ds = (both, delivered.2)) ∧
      delivered.1.history = c.history ∧ delivered.1.awaited = c.awaited ∧
      received.1.feed = c.feed ∧ received.1.devices = c.devices := by
  intro delivered received
  have hdelivered : delivered.1.joined c = delivered.1 := joined_run hds c
  have hreceived : c.joined received.1 = received.1 := joined_receive c reply
  refine ⟨?_, ?_, ?_, ?_, ?_⟩
  · intro hreply
    refine ⟨delivered.1.joined received.1, ?_, ?_⟩
    · have hbounds : delivered.1.bounds = c.bounds := bounds_run c ds
      have hjoined := receive_joined hbounds hreply
      rwa [hdelivered] at hjoined
    · have hjoined := run_joined hds c received.1
      rwa [hreceived] at hjoined
  · rw [← hdelivered]
    rfl
  · rw [← hdelivered]
    rfl
  · rw [← hreceived]
    rfl
  · rw [← hreceived]
    rfl

/-- Message `m5` arrives, the page with `m1` and `m2` is loaded, and the page after it is asked
for. -/
def goesForward : List Operation :=
  [.push (.message (.ofId "m5")), .askOlder,
    .receive (.ok (.numbered 1 [.message (.ofId "m1"), .message (.ofId "m2")])), .askNewer]

/-- A device comes and goes with a message in between, before or after the page that was asked
for. -/
theorem deliveries_commute_nextPage :
    let c := ((empty "pool" (.ofCapacity 4)).run goesForward).1
    let page : Page := .numbered 2 [.message (.ofId "m3"), .message (.ofId "m4")]
    let ds : List Operation := [.deviceOnline "device" "user" 1, .push (.message (.ofId "m6")),
      .deviceOffline "device" 2]
    (∀ op ∈ ds, op.isDelivery = true) ∧ c.LeavesFeedOut (.ok page) ∧
      (c.run ds).2 = [.done, .done, .wasOnline true] ∧ (c.receive (.ok page)).2 = .ok true ∧
      ∃ both, (c.run ds).1.receive (.ok page) = (both, (c.receive (.ok page)).2) ∧
        (c.receive (.ok page)).1.run ds = (both, (c.run ds).2) := by
  intro c page ds
  have hds : ∀ op ∈ ds, op.isDelivery = true := by decide
  have hpage : c.LeavesFeedOut (.ok page) := .past rfl
  obtain ⟨hcommute, -⟩ := deliveries_commute c (.ok page) ds hds
  exact ⟨hds, hpage, rfl, by decide, hcommute hpage⟩

/-- A page that reaches the present does not commute: aligned with the later feed, it takes the
notice that the feed holds between its messages. -/
example :
    let c := ((empty "pool" (.ofCapacity 4)).run [.push (.message (.ofId "m1")), .askOlder]).1
    let page : Page := (Page.numbered 0 [.message (.ofId "m1"), .message (.ofId "m2")]).asNewest
    let ds : List Operation := [.memberJoined "user" 1, .push (.message (.ofId "m2"))]
    ((c.receive (.ok page)).1.run ds).1 ≠ ((c.run ds).1.receive (.ok page)).1 := by decide

end Conversation

end Timeline
