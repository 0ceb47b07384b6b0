import Timeline.Proofs.Messages
import Timeline.Proofs.Steps

/-!
# What a failure leaves behind

An operation that fails leaves the conversation as it was, with two exceptions (`afterFailure`). A
page that does not fit takes the history and the request with it. A failed read ends the request and
leaves all else, so that the same page can be asked for again.

**Why no request is lost** (`AwaitsOlder`). A newer page that arrives in live mode could not be
added anywhere, and the request for it would be gone. In live mode no newer page is ever awaited: a
request for one needs a history, and whatever drops the history drops the request with it.

Main statement: `failure_atomic`.
-/

namespace Timeline

/-- The failure of a result. -/
def failureOf? {α : Type} : Except Failure α → Option Failure
  | .error failure => some failure
  | .ok _ => none

theorem failureOf?_eq_some {α : Type} {result : Except Failure α} {failure : Failure} :
    failureOf? result = some failure ↔ result = .error failure := by
  cases result <;> simp [failureOf?]

theorem exists_ok_of_failureOf?_eq_none {α : Type} {result : Except Failure α}
    (h : failureOf? result = none) : ∃ value, result = .ok value := by
  cases result with
  | error failure => cases h
  | ok value => exact ⟨value, rfl⟩

/-- The failure that an operation ended with. -/
def Outcome.failure? : Outcome → Option Failure
  | .askedOlder result => failureOf? result
  | .askedNewer result => failureOf? result
  | .received result => failureOf? result
  | .fetched fetch => failureOf? fetch.result
  | _ => none

/-- The failure came before anything was read. -/
def Failure.Refuses (failure : Failure) : Prop :=
  failure.dropsHistory = false ∧ failure.reason? = none

/-- The failure came with the reply to a request. -/
def Failure.EndsRequest (failure : Failure) : Prop :=
  failure.dropsHistory = true ∨ failure.reason?.isSome = true

namespace Conversation

/-- What is left of a conversation after a failure. With a page that does not fit, history and
request go; with a failed read, the request goes; with any other failure nothing does. -/
def afterFailure (c : Conversation) (failure : Failure) : Conversation :=
  if failure.dropsHistory then { c with history := none, awaited := none }
  else if failure.reason?.isSome then { c with awaited := none }
  else c

/-- In live mode no newer page is awaited. -/
def AwaitsOlder (c : Conversation) : Prop :=
  c.history = none → ∀ a, c.awaited = some a → a.direction = .older

variable {c : Conversation} {failure : Failure}

/-! ## The invariant -/

theorem awaitsOlder_of_idle (hw : c.awaited = none) : c.AwaitsOlder := by
  intro _ a ha
  rw [hw] at ha
  cases ha

theorem awaitsOlder_of_history {h : History} (hh : c.history = some h) : c.AwaitsOlder := by
  intro hlive
  rw [hh] at hlive
  cases hlive

theorem awaitsOlder_askOlder (hc : c.AwaitsOlder) : c.askOlder.1.AwaitsOlder := by
  obtain ⟨failure, heq⟩ | ⟨r, -, heq, -⟩ := askOlder_cases c
  · rw [heq]
    exact hc
  · rw [heq]
    intro _ a ha
    rw [← Option.some.inj ha]

theorem awaitsOlder_askNewer (hc : c.AwaitsOlder) : c.askNewer.1.AwaitsOlder := by
  obtain ⟨failure, heq⟩ | heq | ⟨h, -, hh, -, heq⟩ := askNewer_cases c
  · rw [heq]
    exact hc
  · rw [heq]
    exact awaitsOlder_of_idle rfl
  · rw [heq]
    exact awaitsOlder_of_history hh

theorem awaitsOlder_apply (hc : c.AwaitsOlder) (op : Operation) :
    (c.apply op).1.AwaitsOlder := by
  cases op with
  | restart entries => exact awaitsOlder_of_idle rfl
  | clear => exact awaitsOlder_of_idle rfl
  | giveUp => exact awaitsOlder_of_idle rfl
  | returnToLive => exact awaitsOlder_of_idle rfl
  | deviceOffline deviceId now =>
    show (c.deviceOffline deviceId now).1.AwaitsOlder
    unfold deviceOffline
    split <;> exact hc
  | askOlder => exact awaitsOlder_askOlder hc
  | askNewer => exact awaitsOlder_askNewer hc
  | receive reply => exact awaitsOlder_of_idle (awaited_receive c reply)
  | realign =>
    show c.realign.1.AwaitsOlder
    unfold realign
    split
    · exact hc
    · exact awaitsOlder_of_history rfl
  | fetchOlder source =>
    show (c.fetchOlder source).1.AwaitsOlder
    obtain heq | ⟨r, -, heq⟩ := fetchOlder_fst_cases c source
    · rw [heq]
      exact hc
    · rw [heq]
      exact awaitsOlder_of_idle (awaited_receive _ _)
  | fetchNewer source =>
    show (c.fetchNewer source).1.AwaitsOlder
    obtain heq | heq | ⟨r, -, heq⟩ := fetchNewer_fst_cases c source
    · rw [heq]
      exact hc
    · rw [heq]
      exact awaitsOlder_of_idle rfl
    · rw [heq]
      exact awaitsOlder_of_idle (awaited_receive _ _)
  | _ => exact hc

theorem awaitsOlder_run (poolId : String) (bounds : Bounds) (ops : List Operation) :
    ((empty poolId bounds).run ops).1.AwaitsOlder :=
  run_keeps (P := AwaitsOlder) (fun _ op hc => awaitsOlder_apply hc op) (awaitsOlder_of_idle rfl)
    ops

/-! ## Asking -/

theorem afterFailure_of_refuses (h : failure.Refuses) : c.afterFailure failure = c := by
  simp [afterFailure, h.1, h.2]

theorem refuses_askOlder (h : c.askOlder.2 = .error failure) : failure.Refuses := by
  unfold askOlder at h
  split at h
  · cases h
    exact ⟨rfl, rfl⟩
  · split at h
    · split at h
      · cases h
        exact ⟨rfl, rfl⟩
      · cases h
    · split at h
      · cases h
        exact ⟨rfl, rfl⟩
      · cases h

theorem refuses_askNewer (h : c.askNewer.2 = .error failure) : failure.Refuses := by
  unfold askNewer at h
  split at h
  · cases h
    exact ⟨rfl, rfl⟩
  · split at h
    · cases h
      exact ⟨rfl, rfl⟩
    · split at h
      · split at h
        · cases h
        · cases h
          exact ⟨rfl, rfl⟩
      · cases h

theorem askOlder_error (h : c.askOlder.2 = .error failure) :
    c.askOlder.1 = c.afterFailure failure := by
  rw [afterFailure_of_refuses (refuses_askOlder h)]
  obtain ⟨failure', heq⟩ | ⟨r, -, heq, -⟩ := askOlder_cases c
  · rw [heq]
  · rw [heq] at h
    cases h

theorem askNewer_error (h : c.askNewer.2 = .error failure) :
    c.askNewer.1 = c.afterFailure failure := by
  rw [afterFailure_of_refuses (refuses_askNewer h)]
  obtain ⟨failure', heq⟩ | heq | ⟨h', -, -, -, heq⟩ := askNewer_cases c
  · rw [heq]
  · rw [heq] at h
    cases h
  · rw [heq] at h
    cases h

/-! ## Receiving -/

theorem dropsHistory_of_misfit? {a : Awaited} {p : Page} (h : a.misfit? p = some failure) :
    failure.dropsHistory = true := by
  unfold Awaited.misfit? at h
  split at h
  · split at h
    · cases h
      rfl
    · split at h
      · cases h
        rfl
      · cases h
  · split at h
    · cases h
      rfl
    · cases h

/-- A page that fits finds its place, unless it is a newer one in live mode. -/
theorem merge_error {direction : Direction} {p : Page}
    (h : (c.merge direction p).2 = .error failure) : c.history = none ∧ direction = .newer := by
  unfold merge at h
  split at h
  · cases h
  · cases h
  · cases h
  · next hlive => exact ⟨hlive, rfl⟩

/-- A reply to a request that fails ends the request. -/
theorem receive_error (hc : c.AwaitsOlder) {a : Awaited} (ha : c.awaited = some a) {reply : Reply}
    (h : (c.receive reply).2 = .error failure) :
    failure.EndsRequest ∧ (c.receive reply).1 = c.afterFailure failure := by
  simp only [receive, ha] at h ⊢
  cases reply with
  | error reason =>
    obtain rfl := Except.error.inj h
    exact ⟨.inr rfl, rfl⟩
  | ok p =>
    cases hm : a.misfit? p with
    | some misfit =>
      simp only [hm] at h ⊢
      obtain rfl := Except.error.inj h
      have hdrops := dropsHistory_of_misfit? hm
      exact ⟨.inl hdrops, by rw [afterFailure, if_pos hdrops, leaveHistory]⟩
    | none =>
      simp only [hm] at h
      obtain ⟨hlive, hnewer⟩ := merge_error h
      rw [hc hlive a ha] at hnewer
      cases hnewer

theorem afterFailure_receive (hc : c.AwaitsOlder) {reply : Reply}
    (h : (c.receive reply).2 = .error failure) :
    (c.receive reply).1 = c.afterFailure failure := by
  cases ha : c.awaited with
  | none =>
    simp only [receive, ha] at h ⊢
    obtain rfl := Except.error.inj h
    rfl
  | some a => exact (receive_error hc ha h).2

/-- A reply is not refused for want of a history. -/
theorem receive_ne_noHistory (hc : c.AwaitsOlder) (reply : Reply) :
    (c.receive reply).2 ≠ .error .noHistory := by
  intro h
  cases ha : c.awaited with
  | none =>
    simp only [receive, ha] at h
    cases h
  | some a =>
    obtain ⟨hdrops | hreason, -⟩ := receive_error hc ha h
    · cases hdrops
    · cases hreason

/-! ## Asking and receiving in one step -/

/-- Where the request ends, it does not matter what was asked. -/
theorem afterFailure_asked (h : failure.EndsRequest) (a : Option Awaited) :
    ({ c with awaited := a } : Conversation).afterFailure failure = c.afterFailure failure := by
  unfold afterFailure
  cases hd : failure.dropsHistory with
  | true => rfl
  | false =>
    have hreason : failure.reason?.isSome = true := by
      rcases h with hdrops | hreason
      · rw [hd] at hdrops
        cases hdrops
      · exact hreason
    rw [hreason]
    rfl

/-- What a failed fetch leaves of the conversation, and what it asked for. -/
theorem fetchOlder_error (hc : c.AwaitsOlder) {source : PageRequest → Reply}
    (h : (c.fetchOlder source).2.result = .error failure) :
    (c.fetchOlder source).1 = c.afterFailure failure ∧
      (failure.Refuses ∨ ∃ r, c.awaited = none ∧ c.askOlder.2 = .ok r ∧
        (c.fetchOlder source).2.asked = some r) := by
  obtain ⟨failure', hask⟩ | ⟨r, hw, hask, -⟩ := askOlder_cases c
  · rw [fetchOlder, hask] at h ⊢
    obtain rfl := Except.error.inj h
    have hrefuses : failure'.Refuses := refuses_askOlder (by rw [hask])
    exact ⟨(afterFailure_of_refuses hrefuses).symm, .inl hrefuses⟩
  · have hc' := awaitsOlder_askOlder hc
    rw [fetchOlder, hask] at h ⊢
    rw [hask] at hc'
    obtain ⟨hends, hafter⟩ := receive_error hc' rfl h
    exact ⟨hafter.trans (afterFailure_asked hends _), .inr ⟨r, hw, rfl, rfl⟩⟩

theorem fetchNewer_error (hc : c.AwaitsOlder) {source : PageRequest → Reply}
    (h : (c.fetchNewer source).2.result = .error failure) :
    (c.fetchNewer source).1 = c.afterFailure failure ∧
      (failure.Refuses ∨ ∃ r, c.awaited = none ∧ c.askNewer.2 = .ok (.request r) ∧
        (c.fetchNewer source).2.asked = some r) := by
  obtain ⟨failure', hask⟩ | hask | ⟨h', hw, -, -, hask⟩ := askNewer_cases c
  · rw [fetchNewer, hask] at h ⊢
    obtain rfl := Except.error.inj h
    have hrefuses : failure'.Refuses := refuses_askNewer (by rw [hask])
    exact ⟨(afterFailure_of_refuses hrefuses).symm, .inl hrefuses⟩
  · rw [fetchNewer, hask] at h
    cases h
  · have hc' := awaitsOlder_askNewer hc
    rw [fetchNewer, hask] at h ⊢
    rw [hask] at hc'
    obtain ⟨hends, hafter⟩ := receive_error hc' rfl h
    exact ⟨hafter.trans (afterFailure_asked hends _), .inr ⟨_, hw, rfl, rfl⟩⟩

theorem awaited_fetchOlder (hw : c.awaited = none) (source : PageRequest → Reply) :
    (c.fetchOlder source).1.awaited = none := by
  obtain heq | ⟨r, -, heq⟩ := fetchOlder_fst_cases c source
  · rw [heq]
    exact hw
  · rw [heq]
    exact awaited_receive _ _

theorem awaited_fetchNewer (hw : c.awaited = none) (source : PageRequest → Reply) :
    (c.fetchNewer source).1.awaited = none := by
  obtain heq | heq | ⟨r, -, heq⟩ := fetchNewer_fst_cases c source
  · rw [heq]
    exact hw
  · rw [heq]
    rfl
  · rw [heq]
    exact awaited_receive _ _

/-- A failed read changes nothing where nothing was awaited. -/
theorem afterFailure_storage (hw : c.awaited = none) (reason : String) :
    c.afterFailure (.storage reason) = c := by
  show { c with awaited := none } = c
  rw [← hw]

/-! ## All operations -/

theorem afterFailure_apply (hc : c.AwaitsOlder) {op : Operation}
    (h : (c.apply op).2.failure? = some failure) :
    (c.apply op).1 = c.afterFailure failure := by
  cases op with
  | askOlder => exact askOlder_error (failureOf?_eq_some.1 h)
  | askNewer => exact askNewer_error (failureOf?_eq_some.1 h)
  | receive reply => exact afterFailure_receive hc (failureOf?_eq_some.1 h)
  | fetchOlder source => exact (fetchOlder_error hc (failureOf?_eq_some.1 h)).1
  | fetchNewer source => exact (fetchNewer_error hc (failureOf?_eq_some.1 h)).1
  | _ => cases h

/-- **Failures.** After every run, an operation that fails leaves what `afterFailure` says. A reply
is never refused for want of a history. A fetch leaves nothing awaited where nothing was, and after
one that failed in storage the same request is handed out again. -/
theorem failure_atomic (poolId : String) (bounds : Bounds) (ops : List Operation) :
    let c := ((empty poolId bounds).run ops).1
    (∀ op failure, (c.apply op).2.failure? = some failure →
        (c.apply op).1 = c.afterFailure failure) ∧
      (∀ reply, (c.receive reply).2 ≠ .error .noHistory) ∧
      (c.awaited = none → ∀ source,
        (c.fetchOlder source).1.awaited = none ∧ (c.fetchNewer source).1.awaited = none) ∧
      (∀ source reason, (c.fetchOlder source).2.result = .error (.storage reason) →
        ∃ r, (c.fetchOlder source).2.asked = some r ∧
          (c.fetchOlder source).1.askOlder.2 = .ok r) ∧
      ∀ source reason, (c.fetchNewer source).2.result = .error (.storage reason) →
        ∃ r, (c.fetchNewer source).2.asked = some r ∧
          (c.fetchNewer source).1.askNewer.2 = .ok (.request r) := by
  intro c
  have hc : c.AwaitsOlder := awaitsOlder_run poolId bounds ops
  refine ⟨fun op failure => afterFailure_apply hc, receive_ne_noHistory hc, ?_, ?_, ?_⟩
  · intro hw source
    exact ⟨awaited_fetchOlder hw source, awaited_fetchNewer hw source⟩
  · intro source reason h
    obtain ⟨hafter, hrefuses | ⟨r, hw, hask, hasked⟩⟩ := fetchOlder_error hc h
    · cases hrefuses.2
    · rw [afterFailure_storage hw] at hafter
      exact ⟨r, hasked, by rw [hafter, hask]⟩
  · intro source reason h
    obtain ⟨hafter, hrefuses | ⟨r, hw, hask, hasked⟩⟩ := fetchNewer_error hc h
    · cases hrefuses.2
    · rw [afterFailure_storage hw] at hafter
      exact ⟨r, hasked, by rw [hafter, hask]⟩

/-- Message `m1` was delivered, and storage is out of reach. -/
theorem failure_atomic_outage :
    let c := ((empty "pool" (.ofCapacity 2)).run [.push (.message (.ofId "m1"))]).1
    let outage : PageRequest → Reply := fun _ => .error "storage unavailable"
    (c.fetchOlder outage).2.result = .error (.storage "storage unavailable") ∧
      (c.fetchOlder outage).1 = c ∧
      (c.fetchOlder outage).1.askOlder.2 = .ok ⟨.message "m1", .older⟩ := by
  intro c outage
  obtain ⟨hatomic, -, -, hagain, -⟩ :=
    failure_atomic "pool" (.ofCapacity 2) [.push (.message (.ofId "m1"))]
  have hfailed : (c.fetchOlder outage).2.result = .error (.storage "storage unavailable") := by
    decide
  obtain ⟨r, hasked, hask⟩ := hagain outage "storage unavailable" hfailed
  obtain rfl : ⟨.message "m1", .older⟩ = r := Option.some.inj hasked
  exact ⟨hfailed, hatomic (.fetchOlder outage) _ (failureOf?_eq_some.2 hfailed), hask⟩

end Conversation

end Timeline
