import Mathlib.Data.List.Induction
import Timeline.Feed
import Timeline.Proofs.Messages

/-!
# What a live feed retains

A feed is the result of all deliveries since it was last started again. This file says what it
holds without following the evictions one by one.

**Closed form** (`retained`). The last entries that fit the capacity. Where these begin with a
notice and a message came before them, the last such message stands in the place of that notice.

Main statements: `pushAll_empty`, a feed holds what is retained of its deliveries;
`messages_retained_suffix`, no message is missing between two retained ones; and
`mem_messages_retained_iff`, which says until when a message is retained.
-/

namespace Timeline.Feed

/-! ## The closed form -/

/-- The kept entries, with the last message of the evicted ones in the place of a notice at
their head. -/
def anchored (evicted kept : List Entry) : List Entry :=
  match kept, (messages evicted).getLast? with
  | e :: rest, some m => if e.isMessage then e :: rest else .message m :: rest
  | kept, _ => kept

/-- What a feed holds of the entries delivered to it. -/
def retained (capacity : Nat) (delivered : List Entry) : List Entry :=
  anchored (delivered.take (delivered.length - capacity))
    (delivered.drop (delivered.length - capacity))

@[simp] theorem anchored_nil (evicted : List Entry) : anchored evicted [] = [] := by
  cases h : (messages evicted).getLast? <;> simp [anchored]

theorem anchored_of_messages_eq_nil {evicted : List Entry} (h : messages evicted = [])
    (kept : List Entry) : anchored evicted kept = kept := by
  cases kept <;> simp [anchored, h]

theorem anchored_message (evicted : List Entry) (m : Message) (rest : List Entry) :
    anchored evicted (.message m :: rest) = .message m :: rest := by
  cases h : (messages evicted).getLast? <;> simp [anchored, h, Entry.isMessage]

theorem anchored_notice {evicted : List Entry} {e : Entry} {m : Message} (he : e.isMessage = false)
    (hm : (messages evicted).getLast? = some m) (rest : List Entry) :
    anchored evicted (e :: rest) = .message m :: rest := by
  simp [anchored, hm, he]

@[simp] theorem length_anchored (evicted kept : List Entry) :
    (anchored evicted kept).length = kept.length := by
  cases kept with
  | nil => simp
  | cons e rest =>
    cases h : (messages evicted).getLast? with
    | none => simp [anchored, h]
    | some m =>
      simp only [anchored, h]
      split <;> rfl

theorem retained_of_length_le {capacity : Nat} {delivered : List Entry}
    (h : delivered.length ≤ capacity) : retained capacity delivered = delivered := by
  rw [retained, Nat.sub_eq_zero_of_le h]
  exact anchored_of_messages_eq_nil rfl _

theorem retained_append (evicted kept : List Entry) :
    retained kept.length (evicted ++ kept) = anchored evicted kept := by
  rw [retained, List.length_append, Nat.add_sub_cancel, List.take_left, List.drop_left]

theorem length_retained (capacity : Nat) (delivered : List Entry) :
    (retained capacity delivered).length = min capacity delivered.length := by
  rw [retained, length_anchored, List.length_drop]
  omega

/-- The eviction that makes room for one more entry. -/
theorem evict_anchored (evicted : List Entry) (e : Entry) (kept : List Entry) (new : Entry) :
    evict (anchored evicted (e :: kept) ++ [new]) = anchored (evicted ++ [e]) (kept ++ [new]) := by
  obtain ⟨x, rest, hx⟩ := List.exists_cons_of_ne_nil (show kept ++ [new] ≠ [] by simp)
  -- The head is evicted unless it is a message and the next entry is none.
  cases he : e.isMessage with
  | true =>
    obtain ⟨m, rfl⟩ := isMessage_eq_true_iff.1 he
    rw [anchored_message, List.cons_append, hx]
    cases hn : x.isMessage with
    | true =>
      obtain ⟨m', rfl⟩ := isMessage_eq_true_iff.1 hn
      rw [anchored_message]
      rfl
    | false =>
      have hlast : (messages (evicted ++ [.message m])).getLast? = some m := by simp
      rw [anchored_notice hn hlast, evict, hn]
      rfl
  | false =>
    cases hm : (messages evicted).getLast? with
    | none =>
      have hnil : messages evicted = [] := List.getLast?_eq_none_iff.1 hm
      rw [anchored_of_messages_eq_nil hnil, List.cons_append, hx,
        anchored_of_messages_eq_nil (by simp [hnil, he]), evict, he]
      rfl
    | some m =>
      rw [anchored_notice he hm, List.cons_append, hx]
      cases hn : x.isMessage with
      | true =>
        obtain ⟨m', rfl⟩ := isMessage_eq_true_iff.1 hn
        rw [anchored_message]
        rfl
      | false =>
        rw [anchored_notice hn (by simpa [he] using hm), evict, hn]
        rfl

/-- What one more delivery does to a feed. -/
theorem fit_retained (capacity : Nat) (delivered : List Entry) (new : Entry) :
    fit capacity (retained capacity delivered ++ [new]) =
      retained capacity (delivered ++ [new]) := by
  rw [fit, List.length_append, length_retained, List.length_singleton]
  rcases Nat.lt_or_ge delivered.length capacity with hroom | hfull
  · rw [retained_of_length_le (Nat.le_of_lt hroom), retained_of_length_le (by simp; omega),
      show min capacity delivered.length + 1 - capacity = 0 by omega]
    rfl
  · rw [show min capacity delivered.length + 1 - capacity = 1 by omega, evictMany, evictMany]
    obtain ⟨evicted, kept, rfl, rfl⟩ : ∃ evicted kept : List Entry,
        delivered = evicted ++ kept ∧ kept.length = capacity :=
      ⟨_, _, (List.take_append_drop (delivered.length - capacity) delivered).symm, by simp; omega⟩
    rw [retained_append]
    cases kept with
    | nil => simp [evict, retained]
    | cons e kept =>
      have hlen : (e :: kept).length = (kept ++ [new]).length := by simp
      rw [evict_anchored, hlen, ← retained_append]
      simp

/-- **Closed form.** A feed holds what is retained of the entries delivered to it. -/
theorem pushAll_empty (capacity : Nat) (delivered : List Entry) :
    (empty capacity).pushAll delivered = ⟨capacity, retained capacity delivered⟩ := by
  induction delivered using List.reverseRecOn with
  | nil => simp [pushAll, empty, retained]
  | append_singleton delivered e ih =>
    simp only [pushAll] at ih
    rw [pushAll, List.foldl_append, ih, List.foldl_cons, List.foldl_nil, push, fit_retained]

/-! ## Which messages are retained -/

theorem messages_anchored_suffix (evicted kept : List Entry) :
    messages (anchored evicted kept) <:+ messages (evicted ++ kept) := by
  cases kept with
  | nil => simp
  | cons e rest =>
    rw [messages_append]
    cases he : e.isMessage with
    | true =>
      obtain ⟨m, rfl⟩ := isMessage_eq_true_iff.1 he
      rw [anchored_message]
      exact List.suffix_append _ _
    | false =>
      rcases List.eq_nil_or_concat (messages evicted) with hnil | ⟨ms, m, hms⟩
      · rw [anchored_of_messages_eq_nil hnil]
        exact List.suffix_append _ _
      · rw [List.concat_eq_append] at hms
        have hlast : (messages evicted).getLast? = some m := by rw [hms, List.getLast?_concat]
        rw [anchored_notice he hlast, hms, messages_message, messages_cons, messages_notice he]
        exact ⟨ms, by simp⟩

/-- No message is missing between two retained ones, or after them. -/
theorem messages_retained_suffix (capacity : Nat) (delivered : List Entry) :
    messages (retained capacity delivered) <:+ messages delivered := by
  have h := messages_anchored_suffix (delivered.take (delivered.length - capacity))
    (delivered.drop (delivered.length - capacity))
  rwa [List.take_append_drop] at h

/-- Every kept message is retained. -/
theorem messages_kept_subset (evicted kept : List Entry) :
    messages kept ⊆ messages (anchored evicted kept) := by
  cases kept with
  | nil => simp
  | cons e rest =>
    cases he : e.isMessage with
    | true =>
      obtain ⟨m, rfl⟩ := isMessage_eq_true_iff.1 he
      rw [anchored_message]
      exact List.Subset.refl _
    | false =>
      rw [messages_cons, messages_notice he, List.nil_append]
      cases hm : (messages evicted).getLast? with
      | none =>
        rw [anchored_of_messages_eq_nil (List.getLast?_eq_none_iff.1 hm), messages_cons,
          messages_notice he]
        exact List.Subset.refl _
      | some m =>
        rw [anchored_notice he hm, messages_message]
        exact List.subset_cons_self _ _

/-- An evicted message is retained in the place of a notice, if it is the last one evicted. -/
theorem mem_messages_anchored_iff {before after kept : List Entry} {m : Message} {e : Entry}
    (hnd : (messages (before ++ .message m :: after ++ e :: kept)).Nodup) :
    m ∈ messages (anchored (before ++ .message m :: after) (e :: kept)) ↔
      messages (after ++ [e]) = [] := by
  have hsplit : messages (before ++ .message m :: after ++ e :: kept) =
      messages before ++ m :: (messages after ++ messages (e :: kept)) := by simp
  rw [hsplit, List.nodup_middle, List.nodup_cons] at hnd
  simp only [List.mem_append, not_or] at hnd
  obtain ⟨⟨-, hafter, hkept⟩, -⟩ := hnd
  rw [messages_append, List.append_eq_nil_iff]
  cases he : e.isMessage with
  | true =>
    obtain ⟨m', rfl⟩ := isMessage_eq_true_iff.1 he
    rw [anchored_message]
    simpa using hkept
  | false =>
    rw [messages_notice he, and_iff_left rfl]
    have hrest : m ∉ messages kept := by
      rwa [messages_cons, messages_notice he, List.nil_append] at hkept
    rcases List.eq_nil_or_concat (messages after) with hnil | ⟨ms, m', hms⟩
    · have hlast : (messages (before ++ .message m :: after)).getLast? = some m := by simp [hnil]
      rw [anchored_notice he hlast]
      simp [hnil]
    · rw [List.concat_eq_append] at hms
      have hlast : (messages (before ++ .message m :: after)).getLast? = some m' := by
        rw [messages_append, messages_message, hms, ← List.cons_append, ← List.append_assoc,
          List.getLast?_concat]
      have hne : m ≠ m' := by
        rintro rfl
        exact hafter (by simp [hms])
      rw [anchored_notice he hlast, messages_message, hms]
      simp [hne, hrest]

/-- The entries by which a sequence exceeds the capacity, counted from its second one on. -/
def overflow (capacity : Nat) (entries : List Entry) : List Entry :=
  entries.tail.take (entries.length - capacity)

/-- A message is retained until the entries delivered from it on exceed the capacity by another
message. -/
theorem mem_messages_retained_iff {capacity : Nat} (hcap : 0 < capacity)
    {before after : List Entry} {m : Message}
    (hnd : (messages (before ++ .message m :: after)).Nodup) :
    m ∈ messages (retained capacity (before ++ .message m :: after)) ↔
      messages (overflow capacity (.message m :: after)) = [] := by
  rw [overflow, List.tail_cons, List.length_cons]
  rcases Nat.lt_or_ge after.length capacity with hlt | hge
  · rw [show after.length + 1 - capacity = 0 by omega, List.take_zero]
    refine iff_of_true ?_ rfl
    rw [retained]
    apply messages_kept_subset
    rw [List.drop_append_of_le_length (by simp; omega)]
    simp
  · -- The kept entries begin behind the message.
    obtain ⟨first, e, kept, rfl, rfl⟩ : ∃ (first : List Entry) (e : Entry) (kept : List Entry),
        after = first ++ e :: kept ∧ (e :: kept).length = capacity := by
      have hlen : (after.drop (after.length - capacity)).length = capacity := by simp; omega
      obtain ⟨e, kept, hkept⟩ := List.exists_cons_of_length_pos (hlen ▸ hcap)
      exact ⟨_, e, kept, hkept ▸ (List.take_append_drop _ _).symm, hkept ▸ hlen⟩
    have hassoc : before ++ .message m :: (first ++ e :: kept) =
        before ++ .message m :: first ++ e :: kept := by simp
    have hlen : (first ++ e :: kept).length + 1 - (e :: kept).length = (first ++ [e]).length := by
      simp only [List.length_append, List.length_cons, List.length_nil]
      omega
    have htake : (first ++ e :: kept).take (first ++ [e]).length = first ++ [e] := by
      rw [List.append_cons first e kept, List.take_left]
    rw [hassoc] at hnd ⊢
    rw [retained_append, mem_messages_anchored_iff hnd, hlen, htake]

/-- All messages from one on are retained until the entries delivered from it on exceed the
capacity by another message. -/
theorem messages_subset_retained_iff {capacity : Nat} (hcap : 0 < capacity)
    {before after : List Entry} {m : Message}
    (hnd : (messages (before ++ .message m :: after)).Nodup) :
    m :: messages after ⊆ messages (retained capacity (before ++ .message m :: after)) ↔
      messages (overflow capacity (.message m :: after)) = [] := by
  rw [← mem_messages_retained_iff hcap hnd]
  constructor
  · intro hall
    exact hall List.mem_cons_self
  · intro hm
    have hsuffix := messages_retained_suffix capacity (before ++ .message m :: after)
    rw [messages_append, messages_message] at hnd hsuffix
    exact subset_of_suffix hnd hsuffix hm

end Timeline.Feed
