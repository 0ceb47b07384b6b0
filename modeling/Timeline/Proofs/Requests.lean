import Timeline.Proofs.Failing

/-!
# One request at a time

**Steps** (`Conversation.steps`). What a run did: its operations, each with its outcome. A request
is known by the step that handed it out.

**Open requests** (`OpenAt`). A request is open from the step that hands it out until an operation
ends it: a reply, giving up, a new start of the feed, or the return to live mode.

At most one request is open at a time, and it is the one for the page that is awaited
(`exists_openAt_iff`). While one is open, no other is handed out. While none is, no reply is taken.

Main statement: `single_flight`.
-/

namespace Timeline

/-- The request that an operation hands out. A fetch hands out none, since it deals with its request
itself. -/
def Outcome.request? : Outcome → Option PageRequest
  | .askedOlder (.ok r) => some r
  | .askedNewer (.ok (.request r)) => some r
  | _ => none

/-- No request is open after the operation. -/
def Operation.endsRequest : Operation → Bool
  | .receive _ => true
  | .giveUp => true
  | .restart _ => true
  | .clear => true
  | .returnToLive => true
  | _ => false

/-- The page that answers a request. -/
def PageRequest.awaited (r : PageRequest) : Awaited := ⟨r.direction, r.number?⟩

/-- An operation and its outcome. -/
abbrev Step := Operation × Outcome

/-- Step `i` handed out the request `r`, and no step since ended it. -/
structure OpenAt (steps : List Step) (i : Nat) (r : PageRequest) : Prop where
  handedOut : (steps[i]?.bind fun step => step.2.request?) = some r
  notEnded : ∀ step ∈ steps.drop i, step.1.endsRequest = false

theorem not_openAt_nil (i : Nat) (r : PageRequest) : ¬OpenAt [] i r := by
  rintro ⟨hout, -⟩
  cases hout

theorem OpenAt.lt_length {steps : List Step} {i : Nat} {r : PageRequest} (h : OpenAt steps i r) :
    i < steps.length := by
  by_contra hge
  have hout := h.handedOut
  rw [List.getElem?_eq_none (Nat.le_of_not_lt hge)] at hout
  cases hout

/-- The last step did not end the request, and handed it out itself or found it open. -/
theorem openAt_concat_iff {steps : List Step} {step : Step} {i : Nat} {r : PageRequest} :
    OpenAt (steps ++ [step]) i r ↔
      step.1.endsRequest = false ∧
        ((i = steps.length ∧ step.2.request? = some r) ∨ OpenAt steps i r) := by
  rcases Nat.lt_or_ge i steps.length with hlt | hge
  · have hget : (steps ++ [step])[i]? = steps[i]? := List.getElem?_append_left hlt
    have hdrop : (steps ++ [step]).drop i = steps.drop i ++ [step] :=
      List.drop_append_of_le_length (Nat.le_of_lt hlt)
    constructor
    · rintro ⟨hout, hend⟩
      rw [hdrop] at hend
      rw [hget] at hout
      refine ⟨hend step (by simp), .inr ⟨hout, ?_⟩⟩
      intro earlier hmem
      exact hend earlier (List.mem_append_left _ hmem)
    · rintro ⟨hstep, ⟨rfl, -⟩ | ⟨hout, hend⟩⟩
      · exact absurd hlt (Nat.lt_irrefl _)
      · refine ⟨by rw [hget, hout], ?_⟩
        rw [hdrop]
        intro later hmem
        rcases List.mem_append.1 hmem with hearlier | hlast
        · exact hend later hearlier
        · rwa [List.mem_singleton.1 hlast]
  · have hnone : ¬OpenAt steps i r := by
      intro h
      exact absurd h.lt_length (Nat.not_lt_of_le hge)
    constructor
    · intro h
      have hlt := h.lt_length
      rw [List.length_append, List.length_singleton] at hlt
      obtain rfl : i = steps.length := by omega
      obtain ⟨hout, hend⟩ := h
      exact ⟨hend step (by simp), .inl ⟨rfl, by simpa using hout⟩⟩
    · rintro ⟨hstep, ⟨rfl, hout⟩ | hopen⟩
      · exact ⟨by simpa using hout, by simpa using hstep⟩
      · exact absurd hopen hnone

namespace Conversation

/-! ## Steps -/

/-- What a run does, step by step. -/
def steps (c : Conversation) (ops : List Operation) : List Step := ops.zip (c.run ops).2

theorem length_run (c : Conversation) (ops : List Operation) :
    (c.run ops).2.length = ops.length := by
  induction ops generalizing c with
  | nil => rfl
  | cons op ops ih => exact congrArg Nat.succ (ih _)

@[simp] theorem length_steps (c : Conversation) (ops : List Operation) :
    (c.steps ops).length = ops.length := by
  rw [steps, List.length_zip, length_run, Nat.min_self]

theorem steps_concat (c : Conversation) (ops : List Operation) (op : Operation) :
    c.steps (ops ++ [op]) = c.steps ops ++ [(op, ((c.run ops).1.apply op).2)] := by
  rw [steps, run_append, List.zip_append (length_run c ops).symm]
  rfl

/-! ## Refusals -/

/-- No page is asked for, neither from the caller nor from a source, and nothing changes. -/
structure RefusesToAsk (c : Conversation) : Prop where
  askOlder : c.askOlder = (c, .error .alreadyWaiting)
  askNewer : c.askNewer = (c, .error .alreadyWaiting)
  fetchOlder : ∀ source, c.fetchOlder source = (c, ⟨none, .error .alreadyWaiting⟩)
  fetchNewer : ∀ source, c.fetchNewer source = (c, ⟨none, .error .alreadyWaiting⟩)

/-- No reply is taken, whatever it brings, and nothing changes. -/
def RefusesReplies (c : Conversation) : Prop :=
  ∀ reply, c.receive reply = (c, .error .notWaiting)

variable {c : Conversation}

theorem refusesToAsk (hw : c.isWaiting = true) : c.RefusesToAsk := by
  have holder : c.askOlder = (c, .error .alreadyWaiting) := by rw [askOlder, if_pos hw]
  have hnewer : c.askNewer = (c, .error .alreadyWaiting) := by rw [askNewer, if_pos hw]
  refine ⟨holder, hnewer, ?_, ?_⟩
  · intro source
    rw [Conversation.fetchOlder, holder]
  · intro source
    rw [Conversation.fetchNewer, hnewer]

theorem awaited_eq_none_iff : c.awaited = none ↔ c.isWaiting = false := by
  rw [isWaiting, Option.isSome_eq_false_iff, Option.isNone_iff_eq_none]

theorem refusesReplies (hw : c.isWaiting = false) : c.RefusesReplies := by
  intro reply
  simp only [receive, awaited_eq_none_iff.2 hw]

/-! ## What an operation does to the request -/

theorem awaited_askOlder (c : Conversation) :
    c.askOlder.1.awaited = match (Outcome.askedOlder c.askOlder.2).request? with
      | some r => some r.awaited
      | none => c.awaited := by
  unfold askOlder
  cases hw : c.isWaiting with
  | true => rfl
  | false =>
    cases hh : c.history with
    | none =>
      cases ha : c.feed.anchor? with
      | none => simp [Outcome.request?]
      | some p => simp [Outcome.request?, PageRequest.awaited, PageRequest.number?]
    | some h =>
      cases ho : h.older? with
      | none => simp [Outcome.request?, ho]
      | some n => simp [Outcome.request?, ho, PageRequest.awaited, PageRequest.number?]

theorem awaited_askNewer (c : Conversation) :
    c.askNewer.1.awaited = match (Outcome.askedNewer c.askNewer.2).request? with
      | some r => some r.awaited
      | none => c.awaited := by
  cases hw : c.isWaiting with
  | true =>
    rw [(refusesToAsk hw).askNewer]
    rfl
  | false =>
    -- Where the feed takes over the request goes with the history, but there is none.
    have hidle : c.awaited = none := awaited_eq_none_iff.2 hw
    obtain ⟨failure, heq⟩ | heq | ⟨h, -, -, -, heq⟩ := askNewer_cases c
    · rw [heq]
      rfl
    · rw [heq, hidle]
      rfl
    · rw [heq]
      rfl

/-- A fetch ends the request that it makes, and is refused where another is open. -/
theorem awaited_fetchOlder_eq (c : Conversation) (source : PageRequest → Reply) :
    (c.fetchOlder source).1.awaited = c.awaited := by
  cases hw : c.isWaiting with
  | true => rw [(refusesToAsk hw).fetchOlder]
  | false =>
    have hidle : c.awaited = none := awaited_eq_none_iff.2 hw
    rw [awaited_fetchOlder hidle, hidle]

theorem awaited_fetchNewer_eq (c : Conversation) (source : PageRequest → Reply) :
    (c.fetchNewer source).1.awaited = c.awaited := by
  cases hw : c.isWaiting with
  | true => rw [(refusesToAsk hw).fetchNewer]
  | false =>
    have hidle : c.awaited = none := awaited_eq_none_iff.2 hw
    rw [awaited_fetchNewer hidle, hidle]

/-- After an operation the page of the request that it handed out is awaited, if it did; otherwise
the same page as before, unless the operation ended the request. -/
theorem awaited_apply (c : Conversation) (op : Operation) :
    (c.apply op).1.awaited = match (c.apply op).2.request? with
      | some r => some r.awaited
      | none => if op.endsRequest then none else c.awaited := by
  cases op with
  | askOlder => exact awaited_askOlder c
  | askNewer => exact awaited_askNewer c
  | receive reply => exact awaited_receive c reply
  | deviceOffline deviceId now =>
    show (c.deviceOffline deviceId now).1.awaited = c.awaited
    unfold deviceOffline
    split <;> rfl
  | realign =>
    show c.realign.1.awaited = c.awaited
    unfold realign
    split <;> rfl
  | fetchOlder source => exact awaited_fetchOlder_eq c source
  | fetchNewer source => exact awaited_fetchNewer_eq c source
  | _ => rfl

/-- A request is handed out where none is open. -/
theorem isWaiting_of_request? {op : Operation} {r : PageRequest}
    (h : (c.apply op).2.request? = some r) : c.isWaiting = false ∧ op.endsRequest = false := by
  cases hw : c.isWaiting with
  | false =>
    refine ⟨rfl, ?_⟩
    cases op with
    | askOlder => rfl
    | askNewer => rfl
    | _ => cases h
  | true =>
    have hrefuses := refusesToAsk hw
    cases op with
    | askOlder =>
      change (Outcome.askedOlder c.askOlder.2).request? = some r at h
      rw [hrefuses.askOlder] at h
      cases h
    | askNewer =>
      change (Outcome.askedNewer c.askNewer.2).request? = some r at h
      rw [hrefuses.askNewer] at h
      cases h
    | _ => cases h

/-! ## Runs -/

/-- One request at most is open, and its page is the awaited one. -/
theorem exists_openAt_iff (hc : c.awaited = none) (ops : List Operation) :
    ∃ current : Option (Nat × PageRequest),
      (c.run ops).1.awaited = current.map (fun q => q.2.awaited) ∧
        ∀ i r, OpenAt (c.steps ops) i r ↔ current = some (i, r) := by
  induction ops using List.reverseRecOn with
  | nil => exact ⟨none, hc, fun i r => iff_of_false (not_openAt_nil i r) nofun⟩
  | append_singleton ops op ih =>
    obtain ⟨current, hawaited, hopen⟩ := ih
    rw [run_concat, steps_concat, awaited_apply]
    cases hout : ((c.run ops).1.apply op).2.request? with
    | some r =>
      -- Nothing was open before, so the request handed out is the only one.
      obtain ⟨hidle, hends⟩ := isWaiting_of_request? hout
      have hnone : current = none := by
        rw [awaited_eq_none_iff.2 hidle] at hawaited
        exact Option.map_eq_none_iff.1 hawaited.symm
      subst hnone
      refine ⟨some (ops.length, r), rfl, ?_⟩
      intro i r'
      simp only [openAt_concat_iff, length_steps, hopen, hout, hends, reduceCtorEq, or_false,
        true_and, Option.some.injEq, Prod.mk.injEq]
      exact and_congr_left fun _ => eq_comm
    | none =>
      cases hends : op.endsRequest with
      | true =>
        refine ⟨none, rfl, ?_⟩
        intro i r
        simp [openAt_concat_iff, hout, hends]
      | false =>
        refine ⟨current, hawaited, ?_⟩
        intro i r
        simp [openAt_concat_iff, hopen, hout, hends]

theorem openAt_unique (hc : c.awaited = none) {ops : List Operation} {i j : Nat}
    {r s : PageRequest} (hr : OpenAt (c.steps ops) i r) (hs : OpenAt (c.steps ops) j s) :
    i = j ∧ r = s := by
  obtain ⟨current, -, hopen⟩ := exists_openAt_iff hc ops
  have h := ((hopen i r).1 hr).symm.trans ((hopen j s).1 hs)
  simpa using h

theorem isWaiting_iff_openAt (hc : c.awaited = none) (ops : List Operation) :
    (c.run ops).1.isWaiting = true ↔ ∃ i r, OpenAt (c.steps ops) i r := by
  obtain ⟨current, hawaited, hopen⟩ := exists_openAt_iff hc ops
  rw [isWaiting, hawaited, Option.isSome_map]
  cases current with
  | none => simp [hopen]
  | some q => exact iff_of_true rfl ⟨q.1, q.2, (hopen _ _).2 rfl⟩

/-- The awaited page is the one of the open request. -/
theorem awaited_of_openAt (hc : c.awaited = none) {ops : List Operation} {i : Nat}
    {r : PageRequest} (h : OpenAt (c.steps ops) i r) : (c.run ops).1.awaited = some r.awaited := by
  obtain ⟨current, hawaited, hopen⟩ := exists_openAt_iff hc ops
  rw [hawaited, (hopen i r).1 h]
  rfl

/-- Every reply came before the request that is open was handed out. -/
theorem reply_lt_of_openAt {ops : List Operation} {i k : Nat} {r : PageRequest} {reply : Reply}
    (h : OpenAt (c.steps ops) i r) (hk : ops[k]? = some (.receive reply)) : k < i := by
  by_contra hge
  have hlt : k < (c.run ops).2.length := by
    rw [length_run]
    exact (List.getElem?_eq_some_iff.1 hk).1
  have hstep : (c.steps ops)[k]? = some (.receive reply, (c.run ops).2[k]) :=
    List.getElem?_zip_eq_some.2 ⟨hk, List.getElem?_eq_getElem hlt⟩
  have hmem : (Operation.receive reply, (c.run ops).2[k]) ∈ (c.steps ops).drop i := by
    refine List.mem_of_getElem? (i := k - i) ?_
    rw [List.getElem?_drop, Nat.add_sub_cancel' (Nat.le_of_not_lt hge), hstep]
  cases h.notEnded _ hmem

/-- The page is added to the history, or opens it. -/
def Merges (c : Conversation) (p : Page) : Prop := ∃ more, (c.receive (.ok p)).2 = .ok more

theorem Merges.isWaiting {p : Page} (h : c.Merges p) : c.isWaiting = true := by
  obtain ⟨more, hmore⟩ := h
  by_contra hw
  rw [refusesReplies (eq_false_of_ne_true hw)] at hmore
  cases hmore

/-- **Single flight.** All along a run a page is awaited if and only if a request is open, and there
is one at most. As long as it is, no other is handed out, no source is asked and nothing changes; at
all other times a reply is refused and nothing changes. So a page is added only for a request that
was handed out after all replies that came before. -/
theorem single_flight (poolId : String) (bounds : Bounds) (ops : List Operation) :
    let c := ((empty poolId bounds).run ops).1
    let steps := (empty poolId bounds).steps ops
    (c.isWaiting = true ↔ ∃ i r, OpenAt steps i r) ∧
      (∀ i r j s, OpenAt steps i r → OpenAt steps j s → i = j ∧ r = s) ∧
      (c.isWaiting = true → c.RefusesToAsk) ∧
      (c.isWaiting = false → c.RefusesReplies) ∧
      ∀ p, c.Merges p → ∃ i r, OpenAt steps i r ∧
        ∀ k reply, ops[k]? = some (.receive reply) → k < i := by
  intro c steps
  have hidle : (empty poolId bounds).awaited = none := rfl
  refine ⟨isWaiting_iff_openAt hidle ops, ?_, refusesToAsk, refusesReplies, ?_⟩
  · intro i r j s hr hs
    exact openAt_unique hidle hr hs
  · intro p hmerges
    obtain ⟨i, r, hopen⟩ := (isWaiting_iff_openAt hidle ops).1 hmerges.isWaiting
    refine ⟨i, r, hopen, ?_⟩
    intro k reply hk
    exact reply_lt_of_openAt hopen hk

/-- Message `m3` arrives, the page that holds it is loaded, and the page before it is asked for. -/
def askedTwice : List Operation :=
  [.push (.message (.ofId "m3")), .askOlder,
    .receive (.ok (.numbered 1 [.message (.ofId "m2"), .message (.ofId "m3")])), .askOlder]

/-- The page before is added for the second request, and refused when it arrives once more. -/
theorem single_flight_repeatedReply :
    let page : Page := .numbered 0 [.message (.ofId "m1")]
    let c := ((empty "pool" (.ofCapacity 4)).run askedTwice).1
    c.isWaiting = true ∧ c.RefusesToAsk ∧ c.Merges page ∧
      (∃ i r, OpenAt ((empty "pool" (.ofCapacity 4)).steps askedTwice) i r ∧ 2 < i) ∧
      ((empty "pool" (.ofCapacity 4)).run
        (askedTwice ++ [.receive (.ok page)])).1.RefusesReplies := by
  intro page c
  have hw : c.isWaiting = true := by decide
  have hmerges : c.Merges page := ⟨false, by decide⟩
  obtain ⟨-, -, hrefuses, -, hrequest⟩ := single_flight "pool" (.ofCapacity 4) askedTwice
  obtain ⟨-, -, -, hclosed, -⟩ :=
    single_flight "pool" (.ofCapacity 4) (askedTwice ++ [.receive (.ok page)])
  obtain ⟨i, r, hopen, hlater⟩ := hrequest page hmerges
  exact ⟨hw, hrefuses hw, hmerges, ⟨i, r, hopen, hlater 2 _ rfl⟩, hclosed (by decide)⟩

end Conversation

end Timeline
