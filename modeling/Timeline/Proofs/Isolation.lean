import Timeline.Pools
import Timeline.Proofs.Capacity

/-!
# Pools that do not interfere

**Operations on pools** (`PoolOperation`). A pool is entered, given a new start, emptied or taken
out, or its conversation does one of its own operations. `Pools.run` does a list of these, each for
the pool it names, in any interleaving.

**One pool alone** (`PoolOperation.act`). What an operation does to its own pool is a function of
that pool's conversation, if it has one, and of the bounds. All other pools stay as they are
(`get?_apply_of_ne`). Two tables that agree on a pool therefore go on to agree on it when the
operations on other pools are left out of one of the two runs (`run_filter`).

**What a pool holds** (`Regular`). Each conversation is what a run of its own operations makes of
the empty one, so all that holds of such runs holds of the conversations of pools.

Main statement: `run_isolated`.
-/

namespace Timeline

/-- Something that happens to one pool. -/
inductive PoolOperation
  | enter
  | restart (entries : List Entry)
  | clear
  | remove
  /-- An operation on the conversation of a pool that exists. -/
  | change (op : Operation)

/-- What an operation on a pool answers. -/
inductive PoolOutcome
  /-- The conversation that the pool has now. -/
  | entered (c : Conversation)
  | cleared (result : Except Failure Unit)
  /-- The conversation that the pool had. -/
  | removed (c : Option Conversation)
  | changed (result : Except Failure Outcome)

/-- What an operation makes of the conversation of its pool, and what it answers. -/
def PoolOperation.act (poolId : String) (bounds : Bounds) (slot : Option Conversation) :
    PoolOperation → Option Conversation × PoolOutcome
  | .enter =>
    let c := slot.getD (.empty poolId bounds)
    (some c, .entered c)
  | .restart entries =>
    let c := (slot.getD (.empty poolId bounds)).restart entries
    (some c, .entered c)
  | .clear =>
    match slot with
    | none => (none, .cleared (.error (.unknownPool poolId)))
    | some c => (some c.clear, .cleared (.ok ()))
  | .remove => (none, .removed slot)
  | .change op =>
    match slot with
    | none => (none, .changed (.error (.unknownPool poolId)))
    | some c => (some (c.apply op).1, .changed (.ok (c.apply op).2))

/-! ## What a run leaves as it was -/

namespace Conversation

theorem poolId_receive (c : Conversation) (reply : Reply) :
    (c.receive reply).1.poolId = c.poolId := by
  obtain ⟨-, heq⟩ | heq | heq | ⟨a, p, -, -, -, -, heq⟩ := receive_fst_cases c reply <;> rw [heq]
  all_goals rfl

theorem poolId_askOlder (c : Conversation) : c.askOlder.1.poolId = c.poolId := by
  obtain ⟨failure, heq⟩ | ⟨r, -, heq, -⟩ := askOlder_cases c <;> rw [heq]

theorem poolId_askNewer (c : Conversation) : c.askNewer.1.poolId = c.poolId := by
  obtain ⟨failure, heq⟩ | heq | ⟨h, -, -, -, heq⟩ := askNewer_cases c <;> rw [heq]
  rfl

theorem poolId_apply (c : Conversation) (op : Operation) :
    (c.apply op).1.poolId = c.poolId := by
  cases op with
  | deviceOffline deviceId now =>
    show (c.deviceOffline deviceId now).1.poolId = c.poolId
    unfold deviceOffline
    split <;> rfl
  | realign =>
    show c.realign.1.poolId = c.poolId
    unfold realign
    split <;> rfl
  | askOlder => exact poolId_askOlder c
  | askNewer => exact poolId_askNewer c
  | receive reply => exact poolId_receive c reply
  | fetchOlder source =>
    show (c.fetchOlder source).1.poolId = c.poolId
    obtain heq | ⟨r, -, heq⟩ := fetchOlder_fst_cases c source
    · rw [heq]
    · rw [heq, poolId_receive, poolId_askOlder]
  | fetchNewer source =>
    show (c.fetchNewer source).1.poolId = c.poolId
    obtain heq | heq | ⟨r, -, heq⟩ := fetchNewer_fst_cases c source
    · rw [heq]
    · rw [heq]
      rfl
    · rw [heq, poolId_receive, poolId_askNewer]
  | _ => rfl

/-- What a run makes of an empty conversation. -/
def Reached (c : Conversation) (poolId : String) (bounds : Bounds) : Prop :=
  ∃ ops, c = ((empty poolId bounds).run ops).1

variable {c : Conversation} {poolId : String} {bounds : Bounds}

theorem Reached.empty (poolId : String) (bounds : Bounds) :
    (empty poolId bounds).Reached poolId bounds :=
  ⟨[], rfl⟩

theorem Reached.apply (h : c.Reached poolId bounds) (op : Operation) :
    (c.apply op).1.Reached poolId bounds := by
  obtain ⟨ops, rfl⟩ := h
  exact ⟨ops ++ [op], (run_concat _ ops op).symm⟩

theorem Reached.poolId_eq (h : c.Reached poolId bounds) : c.poolId = poolId := by
  obtain ⟨ops, rfl⟩ := h
  exact run_keeps (P := fun c => c.poolId = poolId)
    (fun c op hc => (poolId_apply c op).trans hc) rfl ops

theorem Reached.bounds_eq (h : c.Reached poolId bounds) : c.bounds = bounds := by
  obtain ⟨ops, rfl⟩ := h
  exact bounds_run _ ops

/-- Whatever happened before, an emptied conversation is as new. -/
theorem Reached.clear_eq (h : c.Reached poolId bounds) : c.clear = .empty poolId bounds := by
  have hcapacity : c.feed.capacity = c.bounds.capacity := by
    obtain ⟨ops, rfl⟩ := h
    exact (bounded_run poolId bounds ops).feed.1
  rw [clear, leaveHistory, Feed.clear, hcapacity, h.poolId_eq, h.bounds_eq]
  rfl

end Conversation

/-! ## Pools -/

namespace Pools

def apply (ps : Pools) (poolId : String) : PoolOperation → Pools × PoolOutcome
  | .enter => (ps.enter poolId).map id .entered
  | .restart entries => (ps.restart poolId entries).map id .entered
  | .clear => (ps.clear poolId).map id .cleared
  | .remove => (ps.remove poolId).map id .removed
  | .change op => (ps.update poolId fun c => c.apply op).map id .changed

/-- Do operations in order, each for the pool it names, and list what the pools answer. -/
def run (ps : Pools) : List (String × PoolOperation) → Pools × List (String × PoolOutcome)
  | [] => (ps, [])
  | (poolId, op) :: ops =>
    let (next, outcome) := ps.apply poolId op
    let (last, outcomes) := next.run ops
    (last, (poolId, outcome) :: outcomes)

variable {ps ps' : Pools} {poolId other : String}

/-! ## One operation -/

theorem get?_put_self (ps : Pools) (poolId : String) (c : Conversation) :
    (ps.put poolId c).get? poolId = some c :=
  Table.get?_insert_self _ _ _

theorem get?_put_of_ne (h : other ≠ poolId) (ps : Pools) (c : Conversation) :
    (ps.put poolId c).get? other = ps.get? other :=
  Table.get?_insert_of_ne _ h _

theorem enter_of_get? {c : Conversation} (h : ps.get? poolId = some c) :
    ps.enter poolId = (ps, c) := by
  rw [enter, h]

theorem enter_of_get?_none (h : ps.get? poolId = none) :
    ps.enter poolId =
      (ps.put poolId (.empty poolId ps.bounds), .empty poolId ps.bounds) := by
  rw [enter, h]

theorem update_of_get? {α : Type} {c : Conversation} (h : ps.get? poolId = some c)
    (change : Conversation → Conversation × α) :
    ps.update poolId change = (ps.put poolId (change c).1, .ok (change c).2) := by
  rw [update, h]

theorem update_of_get?_none {α : Type} (h : ps.get? poolId = none)
    (change : Conversation → Conversation × α) :
    ps.update poolId change = (ps, .error (.unknownPool poolId)) := by
  rw [update, h]

theorem get?_remove_self (ps : Pools) (poolId : String) :
    (ps.remove poolId).1.get? poolId = none :=
  Table.get?_erase_self _ _

theorem get?_remove_of_ne (h : other ≠ poolId) (ps : Pools) :
    (ps.remove poolId).1.get? other = ps.get? other :=
  Table.get?_erase_of_ne _ h

/-- The pool of an operation takes what `act` makes of it. -/
theorem apply_self (ps : Pools) (poolId : String) (op : PoolOperation) :
    ((ps.apply poolId op).1.get? poolId, (ps.apply poolId op).2) =
      op.act poolId ps.bounds (ps.get? poolId) := by
  cases op with
  | enter =>
    cases hslot : ps.get? poolId with
    | none => simp [apply, enter_of_get?_none hslot, get?_put_self, PoolOperation.act]
    | some c => simp [apply, enter_of_get? hslot, hslot, PoolOperation.act]
  | restart entries =>
    cases hslot : ps.get? poolId with
    | none => simp [apply, restart, enter_of_get?_none hslot, get?_put_self, PoolOperation.act]
    | some c => simp [apply, restart, enter_of_get? hslot, get?_put_self, PoolOperation.act]
  | clear =>
    cases hslot : ps.get? poolId with
    | none => simp [apply, clear, update_of_get?_none hslot, hslot, PoolOperation.act]
    | some c => simp [apply, clear, update_of_get? hslot, get?_put_self, PoolOperation.act]
  | remove => exact Prod.ext (get?_remove_self ps poolId) rfl
  | change op =>
    cases hslot : ps.get? poolId with
    | none => simp [apply, update_of_get?_none hslot, hslot, PoolOperation.act]
    | some c => simp [apply, update_of_get? hslot, get?_put_self, PoolOperation.act]

theorem get?_enter_of_ne (h : other ≠ poolId) (ps : Pools) :
    (ps.enter poolId).1.get? other = ps.get? other := by
  cases hslot : ps.get? poolId with
  | none => rw [enter_of_get?_none hslot, get?_put_of_ne h]
  | some c => rw [enter_of_get? hslot]

theorem get?_update_of_ne {α : Type} (h : other ≠ poolId) (ps : Pools)
    (change : Conversation → Conversation × α) :
    (ps.update poolId change).1.get? other = ps.get? other := by
  cases hslot : ps.get? poolId with
  | none => rw [update_of_get?_none hslot]
  | some c => rw [update_of_get? hslot, get?_put_of_ne h]

/-- The other pools stay as they are. -/
theorem get?_apply_of_ne (h : other ≠ poolId) (ps : Pools) (op : PoolOperation) :
    (ps.apply poolId op).1.get? other = ps.get? other := by
  cases op with
  | enter => exact get?_enter_of_ne h ps
  | restart entries => exact (get?_put_of_ne h _ _).trans (get?_enter_of_ne h ps)
  | clear => exact get?_update_of_ne h ps fun c => (c.clear, ())
  | remove => exact get?_remove_of_ne h ps
  | change op => exact get?_update_of_ne h ps _

theorem bounds_enter (ps : Pools) (poolId : String) : (ps.enter poolId).1.bounds = ps.bounds := by
  unfold enter
  split <;> rfl

theorem bounds_update {α : Type} (ps : Pools) (poolId : String)
    (change : Conversation → Conversation × α) :
    (ps.update poolId change).1.bounds = ps.bounds := by
  unfold update
  split <;> rfl

theorem bounds_apply (ps : Pools) (poolId : String) (op : PoolOperation) :
    (ps.apply poolId op).1.bounds = ps.bounds := by
  cases op with
  | enter => exact bounds_enter ps poolId
  | restart entries => exact bounds_enter ps poolId
  | clear => exact bounds_update ps poolId fun c => (c.clear, ())
  | remove => rfl
  | change op => exact bounds_update ps poolId _

/-! ## Runs -/

/-- The tables agree on a pool and on the bounds. -/
def AgreeOn (poolId : String) (ps ps' : Pools) : Prop :=
  ps.bounds = ps'.bounds ∧ ps.get? poolId = ps'.get? poolId

/-- Tables that agree on a pool do so after an operation on it, and answer the same. -/
theorem AgreeOn.apply_self (h : AgreeOn poolId ps ps') (op : PoolOperation) :
    AgreeOn poolId (ps.apply poolId op).1 (ps'.apply poolId op).1 ∧
      (ps.apply poolId op).2 = (ps'.apply poolId op).2 := by
  have hact := ps.apply_self poolId op
  rw [h.1, h.2, ← ps'.apply_self poolId op] at hact
  obtain ⟨hslot, houtcome⟩ := Prod.mk.inj hact
  refine ⟨⟨?_, hslot⟩, houtcome⟩
  rw [bounds_apply, bounds_apply, h.1]

theorem AgreeOn.apply_other (h : AgreeOn poolId ps ps') (hne : poolId ≠ other)
    (op : PoolOperation) : AgreeOn poolId (ps.apply other op).1 ps' :=
  ⟨(bounds_apply ps other op).trans h.1, (get?_apply_of_ne hne ps op).trans h.2⟩

/-- What a run does to a pool, it does without the operations on other pools. -/
theorem run_filter (h : AgreeOn poolId ps ps') (ops : List (String × PoolOperation)) :
    AgreeOn poolId (ps.run ops).1 (ps'.run (ops.filter fun o => o.1 == poolId)).1 ∧
      ((ps.run ops).2.filter fun o => o.1 == poolId) =
        (ps'.run (ops.filter fun o => o.1 == poolId)).2 := by
  induction ops generalizing ps ps' with
  | nil => exact ⟨h, rfl⟩
  | cons o ops ih =>
    obtain ⟨id, op⟩ := o
    by_cases hid : id = poolId
    · subst hid
      obtain ⟨hnext, houtcome⟩ := h.apply_self op
      obtain ⟨hlast, houtcomes⟩ := ih hnext
      rw [List.filter_cons_of_pos (by simp), run, run, List.filter_cons_of_pos (by simp),
        houtcomes, houtcome]
      exact ⟨hlast, rfl⟩
    · have hnext := h.apply_other (Ne.symm hid) op
      rw [List.filter_cons_of_neg (by simpa using hid), run,
        List.filter_cons_of_neg (by simpa using hid)]
      exact ih hnext

/-! ## What pools hold -/

/-- Each conversation is what a run makes of the empty conversation of its pool. -/
def Regular (ps : Pools) : Prop :=
  ∀ poolId c, ps.get? poolId = some c → c.Reached poolId ps.bounds

theorem regular_act {bounds : Bounds} {slot : Option Conversation}
    (hslot : ∀ c, slot = some c → c.Reached poolId bounds) (op : PoolOperation) {c : Conversation}
    (hc : (op.act poolId bounds slot).1 = some c) : c.Reached poolId bounds := by
  have hopen : (slot.getD (.empty poolId bounds)).Reached poolId bounds := by
    cases slot with
    | none => exact .empty poolId bounds
    | some c => exact hslot c rfl
  cases op with
  | enter =>
    obtain rfl := Option.some.inj hc
    exact hopen
  | restart entries =>
    obtain rfl := Option.some.inj hc
    exact hopen.apply (.restart entries)
  | clear =>
    cases slot with
    | none => cases hc
    | some c₀ =>
      obtain rfl := Option.some.inj hc
      exact (hslot c₀ rfl).apply .clear
  | remove => cases hc
  | change op =>
    cases slot with
    | none => cases hc
    | some c₀ =>
      obtain rfl := Option.some.inj hc
      exact (hslot c₀ rfl).apply op

theorem Regular.apply (h : ps.Regular) (poolId : String) (op : PoolOperation) :
    (ps.apply poolId op).1.Regular := by
  intro id c hc
  rw [bounds_apply]
  by_cases hid : id = poolId
  · subst hid
    have hact : (op.act id ps.bounds (ps.get? id)).1 = some c := by
      rw [← apply_self]
      exact hc
    exact regular_act (h id) op hact
  · rw [get?_apply_of_ne hid] at hc
    exact h id c hc

theorem Regular.run (h : ps.Regular) (ops : List (String × PoolOperation)) :
    (ps.run ops).1.Regular := by
  induction ops generalizing ps with
  | nil => exact h
  | cons o ops ih => exact ih (h.apply o.1 o.2)

theorem regular_empty (bounds : Bounds) : (⟨bounds, .empty⟩ : Pools).Regular := by
  intro poolId c hc
  cases hc

theorem bounds_run (ps : Pools) (ops : List (String × PoolOperation)) :
    (ps.run ops).1.bounds = ps.bounds := by
  induction ops generalizing ps with
  | nil => rfl
  | cons o ops ih => exact (ih _).trans (bounds_apply ps o.1 o.2)

theorem create_eq_ok {bounds : Bounds} (hbounds : bounds.Usable) :
    create bounds = .ok ⟨bounds, .empty⟩ := by
  rw [create, (Bounds.check_eq_ok_iff bounds).2 hbounds]

theorem mem_ids_iff : poolId ∈ ps.ids ↔ (ps.get? poolId).isSome = true := Table.mem_keys_iff

/-- **Pools do not interfere.** After any operations on any pools, a pool is there or not, holds and
has answered what it would have without the operations on other pools. Its conversation has its id
and the common bounds, and to enter it again changes nothing. Emptied, or taken out and entered
again, it is as new. -/
theorem run_isolated {bounds : Bounds} (hbounds : bounds.Usable)
    (ops : List (String × PoolOperation)) (poolId : String) :
    ∃ start, create bounds = .ok start ∧
      let all := start.run ops
      let alone := start.run (ops.filter fun o => o.1 == poolId)
      let new := (start.enter poolId).2
      ((poolId ∈ all.1.ids ↔ poolId ∈ alone.1.ids) ∧
          all.1.get? poolId = alone.1.get? poolId ∧
          (all.2.filter fun o => o.1 == poolId) = alone.2) ∧
        all.1.bounds = bounds ∧
        (∀ c, all.1.get? poolId = some c → c.poolId = poolId ∧ c.bounds = bounds ∧
          all.1.enter poolId = (all.1, c) ∧ (all.1.clear poolId).2 = .ok () ∧
          (all.1.clear poolId).1.get? poolId = some new) ∧
        ((all.1.remove poolId).1.enter poolId).2 = new ∧
        ((all.1.remove poolId).1.enter poolId).1.get? poolId = some new := by
  refine ⟨_, create_eq_ok hbounds, ?_⟩
  intro all alone new
  have hstart : AgreeOn poolId ⟨bounds, .empty⟩ ⟨bounds, .empty⟩ := ⟨rfl, rfl⟩
  obtain ⟨hagree, houtcomes⟩ := run_filter hstart ops
  have hregular : all.1.Regular := (regular_empty bounds).run ops
  have hall : all.1.bounds = bounds := bounds_run _ ops
  refine ⟨⟨?_, hagree.2, houtcomes⟩, hall, ?_, ?_⟩
  · rw [mem_ids_iff, mem_ids_iff, hagree.2]
  · intro c hc
    have hreached := hregular poolId c hc
    rw [hall] at hreached
    have hclear := update_of_get? hc fun c => (c.clear, ())
    refine ⟨hreached.poolId_eq, hreached.bounds_eq, enter_of_get? hc, ?_, ?_⟩
    · rw [clear, hclear]
    · rw [clear, hclear, get?_put_self, hreached.clear_eq]
      rfl
  · have hgone := get?_remove_self all.1 poolId
    rw [enter_of_get?_none hgone, get?_put_self]
    have hbounds' : (all.1.remove poolId).1.bounds = bounds := hall
    rw [hbounds']
    exact ⟨rfl, rfl⟩

/-- The pool at home asks for a page while the one at work comes and goes. -/
def inTurn : List (String × PoolOperation) :=
  [("home", .restart [.message (.ofId "m1")]), ("work", .enter), ("home", .change .askOlder),
    ("work", .change (.push (.message (.ofId "m2")))), ("away", .clear), ("work", .remove)]

/-- Whatever happened at work, the pool at home awaits its page, and is as new once it is
emptied. -/
theorem run_isolated_inTurn :
    (Bounds.ofCapacity 2).Usable ∧ ∃ start c, create (.ofCapacity 2) = .ok start ∧
      (start.run inTurn).1.get? "home" = some c ∧ c.isWaiting = true ∧
      (start.run [("home", .restart [.message (.ofId "m1")]), ("home", .change .askOlder)]).1.get?
        "home" = some c ∧
      ((start.run inTurn).1.clear "home").1.get? "home" = some (start.enter "home").2 := by
  have husable : (Bounds.ofCapacity 2).Usable := by decide
  obtain ⟨start, hstart, ⟨-, hsame, -⟩, -, hheld, -⟩ := run_isolated husable inTurn "home"
  obtain rfl : (⟨.ofCapacity 2, .empty⟩ : Pools) = start := Except.ok.inj hstart
  obtain ⟨-, -, -, -, hnew⟩ := hheld _ rfl
  exact ⟨husable, _, _, hstart, rfl, by decide, hsame.symm, hnew⟩

end Pools

end Timeline
