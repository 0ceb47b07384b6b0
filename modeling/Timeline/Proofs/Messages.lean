import Mathlib.Data.List.Nodup
import Timeline.Entry

/-!
# Messages and the log they come from

**Messages** (`messages`). What is left of a sequence of entries without its notices. Two copies
of a stretch of conversation agree on their messages, whatever notices each of them saw.

**The log.** All messages of a conversation in their order, each with an id of its own
(`Distinct`). A contiguous part of such a log is fixed by the ids at its two ends
(`eq_of_ends`).
-/

namespace Timeline

/-- A message with an id and without a body. -/
def Message.ofId (id : String) : Message := ⟨id, "", 0, .null⟩

/-! ## The messages of a sequence -/

/-- The messages of a sequence, in order. -/
def messages (entries : List Entry) : List Message := entries.filterMap Entry.message?

@[simp] theorem messages_nil : messages [] = [] := rfl

@[simp] theorem messages_append (xs ys : List Entry) :
    messages (xs ++ ys) = messages xs ++ messages ys :=
  List.filterMap_append

theorem messages_flatten (xss : List (List Entry)) :
    messages xss.flatten = (xss.map messages).flatten :=
  List.filterMap_flatten

@[simp] theorem messages_message (m : Message) (xs : List Entry) :
    messages (.message m :: xs) = m :: messages xs := rfl

theorem messages_cons (e : Entry) (xs : List Entry) :
    messages (e :: xs) = messages [e] ++ messages xs :=
  messages_append [e] xs

@[simp] theorem messages_notice {e : Entry} (he : e.isMessage = false) : messages [e] = [] := by
  cases e <;> simp_all [messages, Entry.isMessage, Entry.message?]

@[simp] theorem messages_map_message (log : List Message) :
    messages (log.map Entry.message) = log := by
  induction log with
  | nil => rfl
  | cons m log ih => rw [List.map_cons, messages_message, ih]

theorem mem_messages {m : Message} {xs : List Entry} : m ∈ messages xs ↔ .message m ∈ xs := by
  constructor
  · intro h
    obtain ⟨e, he, hm⟩ := List.mem_filterMap.1 h
    cases e <;> simp_all [Entry.message?]
  · intro h
    exact List.mem_filterMap.2 ⟨_, h, rfl⟩

/-- A message stands in the sequence behind the messages before it and in front of those after
it. -/
theorem exists_split_of_messages {xs : List Entry} {front back : List Message} {m : Message}
    (h : messages xs = front ++ m :: back) :
    ∃ before after, xs = before ++ .message m :: after ∧ messages after = back := by
  obtain ⟨before, rest, rfl, -, hrest⟩ := List.filterMap_eq_append_iff.1 h
  obtain ⟨quiet, e, after, rfl, -, he, hback⟩ := List.filterMap_eq_cons_iff.1 hrest
  have hmessage : e = .message m := by
    cases e <;> simp_all [Entry.message?]
  exact ⟨before ++ quiet, after, by rw [hmessage, List.append_assoc], hback⟩

theorem messages_eq_nil_iff {xs : List Entry} :
    messages xs = [] ↔ ∀ e ∈ xs, e.isMessage = false := by
  rw [messages, List.filterMap_eq_nil_iff]
  refine forall₂_congr fun e _ => ?_
  cases e <;> simp [Entry.isMessage, Entry.message?]

theorem isMessage_eq_true_iff {e : Entry} : e.isMessage = true ↔ ∃ m, e = .message m := by
  cases e <;> simp [Entry.isMessage]

theorem id?_eq_some_iff {e : Entry} {id : String} :
    e.id? = some id ↔ ∃ m, e = .message m ∧ m.id = id := by
  cases e <;> simp [Entry.id?]

theorem id?_eq_map (e : Entry) : e.id? = e.message?.map Message.id := by
  cases e <;> rfl

theorem findSome?_id? (xs : List Entry) :
    xs.findSome? Entry.id? = (messages xs).head?.map Message.id := by
  rw [funext id?_eq_map, ← List.head?_filterMap, ← List.head?_map, messages, List.map_filterMap]

theorem lastMessageId?_eq (xs : List Entry) :
    lastMessageId? xs = (messages xs).getLast?.map Message.id := by
  rw [lastMessageId?, findSome?_id?, messages, List.filterMap_reverse, List.head?_reverse, messages]

/-! ## Parts of a log -/

/-- No two messages have the same id. -/
def Distinct (log : List Message) : Prop := (log.map Message.id).Nodup

instance (log : List Message) : Decidable (Distinct log) :=
  inferInstanceAs (Decidable (List.Nodup _))

theorem Distinct.nodup {log : List Message} (h : Distinct log) : log.Nodup := List.Nodup.of_map _ h

theorem Distinct.sublist {part log : List Message} (h : Distinct log) (hs : part.Sublist log) :
    Distinct part :=
  List.Nodup.sublist (hs.map _) h

/-- A message stands only once among messages with ids of their own. -/
theorem Distinct.not_mem_before {before after : List Message} {m m' : Message}
    (h : Distinct (before ++ m :: after)) (hm' : m' ∈ before) : m'.id ≠ m.id := by
  rw [Distinct, List.map_append, List.nodup_append] at h
  exact h.2.2 _ (List.mem_map_of_mem hm') _ (by simp)

/-- No entry before a message has its id. -/
theorem Distinct.id?_ne_before {front rest : List Entry} {m : Message} {id : String}
    (h : Distinct (messages (front ++ .message m :: rest))) (hm : m.id = id) :
    ∀ e ∈ front, e.id? ≠ some id := by
  rw [messages_append, messages_message] at h
  intro e he hid
  obtain ⟨m', rfl, hm'⟩ := id?_eq_some_iff.1 hid
  exact h.not_mem_before (mem_messages.2 he) (hm'.trans hm.symm)

theorem Distinct.eq_of_id {log : List Message} (h : Distinct log) {m m' : Message}
    (hm : m ∈ log) (hm' : m' ∈ log) (hid : m.id = m'.id) : m = m' :=
  List.inj_on_of_nodup_map h hm hm' hid

/-- A message stands at one place of a log. -/
theorem eq_of_split {xs ys xs' ys' : List Message} {m : Message}
    (hnd : (xs ++ m :: ys).Nodup) (h : xs ++ m :: ys = xs' ++ m :: ys') : xs = xs' ∧ ys = ys' := by
  have hnd' : (xs' ++ m :: ys').Nodup := h ▸ hnd
  rw [List.nodup_middle, List.nodup_cons, List.mem_append, not_or] at hnd hnd'
  have hpre : xs = xs' := by
    rcases List.append_eq_append_iff.1 h with ⟨as, rfl, has⟩ | ⟨as, rfl, has⟩
    · cases as with
      | nil => simp
      | cons a as =>
        obtain ⟨rfl, -⟩ := List.cons.inj has
        exact absurd (by simp) hnd'.1.1
    · cases as with
      | nil => simp
      | cons a as =>
        obtain ⟨rfl, -⟩ := List.cons.inj has
        exact absurd (by simp) hnd.1.1
  subst hpre
  exact ⟨rfl, (List.cons.inj (List.append_cancel_left h)).2⟩

/-- Messages with one id stand at the same place of a log. -/
theorem eq_of_split_id {log xs ys xs' ys' : List Message} {m m' : Message} (hd : Distinct log)
    (h : xs ++ m :: ys = log) (h' : xs' ++ m' :: ys' = log) (hid : m.id = m'.id) :
    xs = xs' ∧ m :: ys = m' :: ys' := by
  have hm : m ∈ log := h ▸ by simp
  have hm' : m' ∈ log := h' ▸ by simp
  obtain rfl := hd.eq_of_id hm hm' hid
  have hnd : (xs ++ m :: ys).Nodup := h ▸ hd.nodup
  obtain ⟨rfl, rfl⟩ := eq_of_split hnd (h.trans h'.symm)
  exact ⟨rfl, rfl⟩

/-- Two parts of a log with the same first and the same last message are the same. -/
theorem eq_of_ends {log s t : List Message} (hd : Distinct log) (hs : s <:+: log)
    (ht : t <:+: log) (hhead : s.head?.map Message.id = t.head?.map Message.id)
    (hlast : s.getLast?.map Message.id = t.getLast?.map Message.id) : s = t := by
  obtain ⟨p, q, hlog⟩ := hs
  obtain ⟨p', q', hlog'⟩ := ht
  cases s with
  | nil =>
    cases t with
    | nil => rfl
    | cons y t => simp at hhead
  | cons x s =>
    cases t with
    | nil => simp at hhead
    | cons y t =>
      simp only [List.head?_cons, Option.map_some, Option.some.injEq] at hhead
      -- What stands before the two parts is the same, and so is what stands after them.
      have hfirst : p ++ x :: (s ++ q) = log := by simpa using hlog
      have hfirst' : p' ++ y :: (t ++ q') = log := by simpa using hlog'
      obtain ⟨rfl, -⟩ := eq_of_split_id hd hfirst hfirst' hhead
      obtain ⟨s', z, hz⟩ := (List.eq_nil_or_concat (x :: s)).resolve_left (by simp)
      obtain ⟨t', z', hz'⟩ := (List.eq_nil_or_concat (y :: t)).resolve_left (by simp)
      rw [List.concat_eq_append] at hz hz'
      rw [hz, hz', List.getLast?_concat, List.getLast?_concat, Option.map_some, Option.map_some,
        Option.some.injEq] at hlast
      have hend : p ++ s' ++ z :: q = log := by simpa [hz] using hlog
      have hend' : p ++ t' ++ z' :: q' = log := by simpa [hz'] using hlog'
      obtain ⟨hbefore, hafter⟩ := eq_of_split_id hd hend hend' hlast
      rw [hz, hz', List.append_cancel_left hbefore, (List.cons.inj hafter).1]

/-! ## The order of a log -/

/-- `m'` comes after `m` in the log. -/
def Newer (log : List Message) (m m' : Message) : Prop := [m, m'].Sublist log

instance (log : List Message) (m m' : Message) : Decidable (Newer log m m') :=
  inferInstanceAs (Decidable (List.Sublist _ _))

theorem newer_append {xs ys : List Message} {m m' : Message} (hm : m ∈ xs) (hm' : m' ∈ ys) :
    Newer (xs ++ ys) m m' :=
  (List.singleton_sublist.2 hm).append (List.singleton_sublist.2 hm')

/-- What comes after a message of the second part stands in the second part. -/
theorem Newer.mem_right {xs ys : List Message} {m m' : Message} (hnd : (xs ++ ys).Nodup)
    (hm : m ∈ ys) (hnewer : Newer (xs ++ ys) m m') : m' ∈ ys := by
  have hnot : m ∉ xs := by
    intro hmem
    exact (List.nodup_append.1 hnd).2.2 m hmem m hm rfl
  obtain ⟨front, back, heq, hfront, hback⟩ := List.sublist_append_iff.1 hnewer
  cases front with
  | nil =>
    rw [List.nil_append] at heq
    exact hback.subset (heq ▸ by simp)
  | cons x front =>
    obtain ⟨rfl, -⟩ := List.cons.inj heq
    exact absurd (hfront.subset List.mem_cons_self) hnot

/-- What comes after the last message of the first part is the second part. -/
theorem newer_iff {xs ys : List Message} {m m' : Message} (hnd : (xs ++ ys).Nodup)
    (hlast : xs.getLast? = some m) : Newer (xs ++ ys) m m' ↔ m' ∈ ys := by
  obtain ⟨init, rfl⟩ := List.getLast?_eq_some_iff.1 hlast
  constructor
  · intro hnewer
    rw [List.append_assoc] at hnd hnewer
    have hmem : m' ∈ [m] ++ ys := hnewer.mem_right hnd (by simp)
    rcases List.mem_append.1 hmem with hself | hys
    · obtain rfl := List.mem_singleton.1 hself
      have htwice : [m', m'].Nodup := List.Nodup.sublist hnewer hnd
      simp at htwice
    · exact hys
  · exact newer_append (by simp)

/-- A part of a log that begins among the first `n` messages is cut in two by their end. -/
theorem exists_split_of_isInfix {log part : List Message} {n : Nat} {first : Message}
    (hnd : log.Nodup) (hpart : part <:+: log) (hhead : part.head? = some first)
    (hfirst : first ∈ log.take n) :
    ∃ seen fresh, part = seen ++ fresh ∧ (∀ m ∈ seen, m ∈ log.take n) ∧
      fresh <+: log.drop n := by
  obtain ⟨front, back, hlog⟩ := hpart
  have hfirst' : first ∈ part := List.mem_of_mem_head? hhead
  have hcut : front ++ (part ++ back) = log.take n ++ log.drop n := by
    rw [List.take_append_drop, ← hlog, List.append_assoc]
  rcases List.append_eq_append_iff.1 hcut with ⟨as, has, hrest⟩ | ⟨as, has, hrest⟩
  · rcases List.append_eq_append_iff.1 hrest with ⟨bs, rfl, hbs⟩ | ⟨bs, rfl, hbs⟩
    · refine ⟨part, [], by simp, ?_, List.nil_prefix⟩
      intro m hm
      simp [has, hm]
    · refine ⟨as, bs, rfl, ?_, hbs ▸ List.prefix_append _ _⟩
      intro m hm
      simp [has, hm]
  · -- The first message would stand on both sides of the cut.
    rw [← List.take_append_drop n log] at hnd
    have hdrop : first ∈ log.drop n := by simp [hrest, hfirst']
    exact absurd rfl ((List.nodup_append.1 hnd).2.2 first hfirst first hdrop)

/-- Where the end of a log holds a message, it holds what follows. -/
theorem subset_of_suffix {log xs ys : List Message} {m : Message} (hnd : (xs ++ m :: ys).Nodup)
    (hsuffix : log <:+ xs ++ m :: ys) (hm : m ∈ log) : m :: ys ⊆ log := by
  rcases List.suffix_or_suffix_of_suffix hsuffix (List.suffix_append xs (m :: ys)) with h | h
  · rcases List.suffix_cons_iff.1 h with rfl | h
    · exact List.Subset.refl _
    · rw [List.nodup_middle, List.nodup_cons] at hnd
      exact absurd (List.mem_append_right _ (h.subset hm)) hnd.1
  · exact h.subset

end Timeline
