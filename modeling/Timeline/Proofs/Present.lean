import Timeline.Proofs.Capacity
import Timeline.Proofs.LogPages

/-!
# The end of history and the live feed

A history that ends at the present is marked so when its newest page is read. Deliveries go on
after that, and the feed evicts what no longer fits.

**The border** (`Session.Borders`). Each message behind the history's newest one is in the feed, up
to the last one delivered. The mark is never taken back by a delivery, so the border does not last:
it breaks as soon as the feed evicts a message that the history does not hold.

Main statements: `Session.borders_iff`, the border holds if and only if only notices had to give
way since the first message that the history does not hold; and `Session.not_borders_outrun`, a
run after which it does not.
-/

namespace Timeline

open Conversation History

variable {log : List Message} {size : Nat}

/-! ## The newest message of a history -/

theorem getLast?_messages_append {xs ys : List Entry} {m : Message}
    (hm : (messages ys).getLast? = some m) : (messages (xs ++ ys)).getLast? = some m := by
  rw [messages_append, List.getLast?_append, hm, Option.some_or]

/-- A page that is marked as the newest one ends where storage ended. -/
theorem newest_of_archive {n k : Nat} {p : Page} (hn : n ≤ log.length)
    (hp : (Archive.ofLog log size n).page? k = some p) (hne : p.entries ≠ [])
    (hpresent : p.isNewest = true) :
    ∃ newest, (log.take n).getLast? = some newest ∧
      (messages p.entries).getLast? = some newest := by
  obtain ⟨-, hmessages, -, hlt, -, hnewest⟩ := page_of_archive hn hp hne
  have hend := hnewest.1 hpresent
  rw [Nat.add_mul, Nat.one_mul] at hend
  have hrest : messages p.entries = (log.take n).drop (k * size) := by
    rw [hmessages, logPage, List.take_of_length_le]
    rw [List.length_drop, List.length_take_of_le hn]
    omega
  have hpos : (log.take n).drop (k * size) ≠ [] := by
    rw [← List.length_pos_iff, List.length_drop, List.length_take_of_le hn]
    omega
  obtain ⟨init, newest, hsplit⟩ := (List.eq_nil_or_concat _).resolve_left hpos
  rw [List.concat_eq_append] at hsplit
  have hlast : (messages p.entries).getLast? = some newest := by
    rw [hrest, hsplit, List.getLast?_concat]
  refine ⟨newest, ?_, hlast⟩
  rw [← List.take_append_drop (k * size) (log.take n), hsplit, ← List.append_assoc,
    List.getLast?_concat]

theorem atPresent_alignedAtPresent (c : Conversation) (h : History) :
    (c.alignedAtPresent h).atPresent = h.atPresent := by
  obtain ⟨k, -, hs⟩ := shortened_alignedAtPresent c h
  exact hs.atPresent

/-- The history ends with the newest of the first `n` messages of the log. -/
def EndsAt (log : List Message) (n : Nat) (h : History) : Prop :=
  ∃ newest, (log.take n).getLast? = some newest ∧ (messages h.entries).getLast? = some newest

theorem EndsAt.align {n : Nat} {h : History} (hend : EndsAt log n h) (hd : Distinct log)
    {feed : Feed} (hf : messages feed.entries ⊆ log) (capacity : Nat) :
    EndsAt log n (h.align feed capacity).1 := by
  obtain ⟨newest, hlog, hnewest⟩ := hend
  have hmem : newest ∈ log := List.mem_of_mem_take (List.mem_of_mem_getLast? hlog)
  exact ⟨newest, hlog, newest_align hd hf hnewest hmem capacity⟩

theorem EndsAt.alignedAtPresent {n : Nat} {h : History} (hend : EndsAt log n h)
    (hd : Distinct log) {c : Conversation} (hf : messages c.feed.entries ⊆ log) :
    EndsAt log n (c.alignedAtPresent h) := by
  unfold Conversation.alignedAtPresent
  split
  · exact hend.align hd hf _
  · exact hend

/-- Where the end is at the present with an older page in front, it was so without it, and no
page had to give way at the back. -/
theorem pushFront_atPresent {h : History} {p : Page} {capacity : Nat}
    (hpresent : (h.pushFront p capacity).atPresent = true) :
    h.atPresent = true ∧ (h.pushFront p capacity).entries = p.entries ++ h.entries := by
  obtain ⟨lost, -, -, hpieces, -, hmark, -⟩ := h.pushFront_spec p capacity
  rw [hpresent, eq_comm, Bool.and_eq_true, beq_iff_eq] at hmark
  obtain ⟨hold, rfl⟩ := hmark
  refine ⟨hold, ?_⟩
  rw [← flatten_pieces, hpieces, Nat.sub_zero, List.take_of_length_le (by simp),
    List.flatten_cons, flatten_pieces]

/-- A history that takes the newest page ends where storage ended. -/
theorem endsAt_pushBack {n : Nat} {h : History} {p : Page} (hn : n ≤ log.length)
    (hp : (Archive.ofLog log size n).page? p.number = some p)
    (hne : p.entries ≠ []) {capacity : Nat}
    (hpresent : (h.pushBack p capacity).atPresent = true) :
    EndsAt log n (h.pushBack p capacity) := by
  obtain ⟨k, hk, hs, hpieces⟩ := h.pushBack_spec p capacity
  have hnew : p.isNewest = true := hs.atPresent.symm.trans hpresent
  obtain ⟨newest, hlog, hnewest⟩ := newest_of_archive hn hp hne hnew
  have hentries : (h.pushBack p capacity).entries = (h.pieces.drop k).flatten ++ p.entries := by
    rw [← flatten_pieces, hpieces,
      List.drop_append_of_le_length (by rw [Raw.length_pieces]; exact Nat.le_of_lt hk),
      List.flatten_append, List.flatten_singleton]
  refine ⟨newest, hlog, ?_⟩
  rw [hentries]
  exact getLast?_messages_append hnewest

/-- A history that takes a page and ends at the present ends where storage ended when that page
was read, or where it ended before. -/
theorem endsAt_grown (hd : Distinct log) {c : Conversation} (hf : messages c.feed.entries ⊆ log)
    {direction : Direction} {p : Page} {n : Nat} (hn : n ≤ log.length)
    (hp : (Archive.ofLog log size n).page? p.number = some p) (hne : p.entries ≠ []) {h : History}
    (hgrown : c.grown direction p = some h) (hpresent : h.atPresent = true) :
    EndsAt log n h ∨
      ∃ h₀, c.history = some h₀ ∧ h₀.atPresent = true ∧ ∀ m, EndsAt log m h₀ → EndsAt log m h := by
  unfold grown at hgrown
  cases hh : c.history with
  | none =>
    rw [hh] at hgrown
    cases direction with
    | newer => cases hgrown
    | older =>
      obtain rfl := Option.some.inj hgrown
      rw [atPresent_alignedAtPresent] at hpresent
      have hend : EndsAt log n (.ofPage p) := newest_of_archive hn hp hne hpresent
      exact .inl (hend.alignedAtPresent hd hf)
  | some h₀ =>
    rw [hh] at hgrown
    cases direction with
    | older =>
      obtain rfl := Option.some.inj hgrown
      obtain ⟨hold, hentries⟩ := pushFront_atPresent hpresent
      refine .inr ⟨h₀, rfl, hold, ?_⟩
      rintro m ⟨newest, hlog, hnewest⟩
      refine ⟨newest, hlog, ?_⟩
      rw [hentries]
      exact getLast?_messages_append hnewest
    | newer =>
      obtain rfl := Option.some.inj hgrown
      rw [atPresent_alignedAtPresent] at hpresent
      exact .inl ((endsAt_pushBack hn hp hne hpresent).alignedAtPresent hd hf)

namespace Session

/-! ## The invariant -/

/-- Storage and delivery follow the log, and what is delivered is in storage. -/
structure DeliversStored (log : List Message) (size : Nat) (s : Session) (event : Event) : Prop
    extends s.Obeys log size event where
  inStorage : ∀ m ∈ messages (s.next event).delivered, m ∈ log.take (s.next event).stored

/-- The first message delivered since the feed last started again is one of the first `n` of the
log. -/
def Began (log : List Message) (n : Nat) (s : Session) : Prop :=
  ∃ first, (messages s.delivered).head? = some first ∧ first ∈ log.take n

/-- The feed did not start again in between. -/
def Continues (s s' : Session) : Prop :=
  s'.earlier = s.earlier ∧ ∃ new, s'.delivered = s.delivered ++ new

/-- What was delivered before the feed started again was stored when the history's newest page was
read, and so was the feed's first message. -/
structure Bordering (log : List Message) (size : Nat) (s : Session) : Prop where
  tracks : s.Tracks
  stored : s.stored ≤ log.length
  delivered : messages s.delivered <:+: log
  inStorage : ∀ m ∈ messages (s.earlier ++ s.delivered), m ∈ log.take s.stored
  earlier : ∀ m ∈ messages s.earlier, m ∈ log.take s.readFrom
  began : s.conversation.isPaging = true → s.Began log s.readFrom
  present : ∀ h, s.conversation.history = some h → h.atPresent = true →
    ∃ n ≤ log.length, EndsAt log n h ∧ (∀ m ∈ messages s.earlier, m ∈ log.take n) ∧
      s.Began log n

theorem mem_take_mono {m : Message} {n n' : Nat} (hle : n ≤ n') (hm : m ∈ log.take n) :
    m ∈ log.take n' :=
  (List.take_prefix_take_left hle).subset hm

theorem Began.mono {s : Session} {n n' : Nat} (hs : s.Began log n) (hle : n ≤ n') :
    s.Began log n' := by
  obtain ⟨first, hhead, hfirst⟩ := hs
  exact ⟨first, hhead, mem_take_mono hle hfirst⟩

theorem Began.continues {s s' : Session} {n : Nat} (hs : s.Began log n)
    (hcont : s.Continues s') : s'.Began log n := by
  obtain ⟨first, hhead, hfirst⟩ := hs
  obtain ⟨-, new, hnew⟩ := hcont
  refine ⟨first, ?_, hfirst⟩
  rw [hnew, messages_append, List.head?_append, hhead, Option.some_or]

/-- While history is loaded or asked for the feed does not start again. -/
theorem continues_of_isPaging {s : Session} {event : Event}
    (h : (s.next event).conversation.isPaging = true) :
    s.Continues (s.next event) ∧
      (s.conversation.isPaging = true ∨ s.conversation.feed.anchor?.isSome = true) := by
  cases event with
  | store count => exact ⟨⟨rfl, [], (List.append_nil _).symm⟩, .inl h⟩
  | operate op =>
    obtain ⟨hkeeps, hbefore⟩ := isPaging_apply h
    refine ⟨⟨?_, s.conversation.delivers op, ?_⟩, hbefore⟩
    · simp [next, hkeeps]
    · simp [next, hkeeps]

theorem bordering_start (log : List Message) (size : Nat) (poolId : String) (bounds : Bounds) :
    (start poolId bounds).Bordering log size where
  tracks := tracks_start poolId bounds
  stored := Nat.zero_le _
  delivered := List.nil_infix
  inStorage := by
    intro m hm
    cases hm
  earlier := by
    intro m hm
    cases hm
  began := by
    intro hpaging
    cases hpaging
  present := by
    intro h hh
    cases hh

/-- Paging begins from a feed whose messages are all in storage. -/
theorem Bordering.began_next {s : Session} (hs : s.Bordering log size) {event : Event}
    (hpaging : (s.next event).conversation.isPaging = true) :
    (s.next event).Began log s.readFrom := by
  obtain ⟨hcont, hbefore⟩ := continues_of_isPaging hpaging
  by_cases hpaged : s.conversation.isPaging = true
  · exact (hs.began hpaged).continues hcont
  · -- Nothing was awaited, so what is asked for now is read later than now.
    have hread : s.readFrom = s.stored := readFrom_of_not_isPaging hpaged
    obtain ⟨⟨i, id⟩, hanchor⟩ := Option.isSome_iff_exists.1 (hbefore.resolve_left hpaged)
    obtain ⟨quiet, m, rest, hfeed, -, -, -⟩ := Feed.anchor?_eq_some hanchor
    have hm : m ∈ messages s.delivered :=
      hs.tracks.messages_feed_suffix.subset (by simp [hfeed])
    obtain ⟨first, rest', hhead⟩ := List.exists_cons_of_ne_nil (List.ne_nil_of_mem hm)
    have hfirst : first ∈ log.take s.readFrom := by
      rw [hread]
      exact hs.inStorage first (by rw [messages_append, hhead]; simp)
    have hbegan : s.Began log s.readFrom := ⟨first, by rw [hhead]; rfl, hfirst⟩
    exact hbegan.continues hcont

/-- What was delivered before a new start of the feed is in storage at that time. -/
theorem Bordering.earlier_next {s : Session} (hs : s.Bordering log size) (event : Event) :
    ∀ m ∈ messages (s.next event).earlier, m ∈ log.take (s.next event).readFrom := by
  intro m hm
  have hmono := hs.tracks.readFrom_mono event
  cases event with
  | store count => exact mem_take_mono hmono (hs.earlier m hm)
  | operate op =>
    by_cases hagain : startsAgain op = true
    · have hread : (s.next (.operate op)).readFrom = s.stored := by
        have hidle : ¬(s.next (.operate op)).conversation.isPaging = true := by
          intro hpaging
          exact Bool.false_ne_true ((isPaging_apply hpaging).1.symm.trans hagain)
        exact readFrom_of_not_isPaging hidle
      rw [hread]
      refine hs.inStorage m ?_
      simpa [next, hagain] using hm
    · refine mem_take_mono hmono (hs.earlier m ?_)
      simpa [next, hagain] using hm

/-- The newest page of a history that ends at the present was read after the feed last started
again. -/
theorem Bordering.present_next (hd : Distinct log) {s : Session} {event : Event}
    (hs : s.Bordering log size) (hrule : s.Obeys log size event) {h : History}
    (hh : (s.next event).conversation.history = some h) (hpresent : h.atPresent = true) :
    ∃ n ≤ log.length, EndsAt log n h ∧
      (∀ m ∈ messages (s.next event).earlier, m ∈ log.take n) ∧ (s.next event).Began log n := by
  obtain ⟨hcont, -⟩ := continues_of_isPaging (isPaging_of_history hh)
  have hfeed : messages s.conversation.feed.entries ⊆ log :=
    List.Subset.trans hs.tracks.messages_feed_suffix.subset hs.delivered.subset
  -- A history that ends where one before it ended borders what that one bordered.
  have hold : ∀ h₀, s.conversation.history = some h₀ → h₀.atPresent = true →
      (∀ n, EndsAt log n h₀ → EndsAt log n h) → ∃ n ≤ log.length, EndsAt log n h ∧
        (∀ m ∈ messages (s.next event).earlier, m ∈ log.take n) ∧
          (s.next event).Began log n := by
    intro h₀ hh₀ hpresent₀ hends
    obtain ⟨n, hn, hend, hearlier, hbegan⟩ := hs.present h₀ hh₀ hpresent₀
    rw [hcont.1]
    exact ⟨n, hn, hends n hend, hearlier, hbegan.continues hcont⟩
  cases event with
  | store count => exact hold h hh hpresent fun n hend => hend
  | operate op =>
    have happly : (s.conversation.apply op).1.history = some h := hh
    cases historyStep_apply s.conversation op with
    | stays hsame => exact hold h (hsame ▸ happly) hpresent fun n hend => hend
    | goes hgone =>
      rw [hgone] at happly
      cases happly
    | @aligned h₀ hop hh₀ haligned =>
      obtain rfl := Option.some.inj (haligned.symm.trans happly)
      obtain ⟨k, -, hshort⟩ := shortened_align h₀ s.conversation.feed s.conversation.bounds.capacity
      exact hold h₀ hh₀ (hshort.atPresent.symm.trans hpresent)
        fun n hend => hend.align hd hfeed _
    | grows htakes hne hnumber hgrown =>
      obtain ⟨n, hn, hfrom, hp⟩ := hrule.page_of_takes htakes
      have hn' : n ≤ log.length := Nat.le_trans hn hs.stored
      rw [hgrown] at happly
      obtain hend | ⟨h₀, hh₀, hpresent₀, hends⟩ := endsAt_grown hd hfeed hn' hp hne happly
        hpresent
      · refine ⟨n, hn', hend, ?_, (hs.began_next (isPaging_of_history hh)).mono hfrom⟩
        rw [hcont.1]
        intro m hm
        exact mem_take_mono hfrom (hs.earlier m hm)
      · exact hold h₀ hh₀ hpresent₀ hends

theorem bordering_next (hd : Distinct log) {s : Session} {event : Event}
    (hrule : s.DeliversStored log size event) (hs : s.Bordering log size) :
    (s.next event).Bordering log size where
  tracks := tracks_next hs.tracks event
  stored := hrule.within.1
  delivered := hrule.within.2
  inStorage := by
    intro m hm
    rw [messages_append, List.mem_append] at hm
    rcases hm with hm | hm
    · have hle := (tracks_next hs.tracks event).readFrom_le
      exact mem_take_mono hle (hs.earlier_next event m hm)
    · exact hrule.inStorage m hm
  earlier := hs.earlier_next event
  began := by
    intro hpaging
    exact (hs.began_next hpaging).mono (hs.tracks.readFrom_mono event)
  present := by
    intro h hh hpresent
    exact hs.present_next hd hrule.toObeys hh hpresent

/-! ## The border -/

/-- No message behind `newest` is missing from the feed, up to the last one delivered. -/
def Borders (log : List Message) (s : Session) (newest : Message) : Prop :=
  ∀ m, Newer log newest m →
    (∃ d ∈ messages (s.earlier ++ s.delivered), m = d ∨ Newer log m d) →
    m ∈ messages s.conversation.feed.entries

/-- What was delivered from the first message behind `newest` on. -/
def unseen (log : List Message) (newest : Message) (delivered : List Entry) : List Entry :=
  delivered.dropWhile fun e => e.message?.all fun m => !decide (Newer log newest m)

/-- Nothing behind `newest` was delivered, or the unseen entries begin with the first message that
was. -/
theorem unseen_cases (log : List Message) (newest : Message) (delivered : List Entry) :
    (unseen log newest delivered = [] ∧ ∀ m ∈ messages delivered, ¬Newer log newest m) ∨
      ∃ before m after, delivered = before ++ .message m :: after ∧
        unseen log newest delivered = .message m :: after ∧ Newer log newest m ∧
        ∀ m' ∈ messages before, ¬Newer log newest m' := by
  induction delivered with
  | nil =>
    left
    refine ⟨rfl, ?_⟩
    intro m hm
    cases hm
  | cons e delivered ih =>
    by_cases hnew : ∃ m, e = .message m ∧ Newer log newest m
    · obtain ⟨m, rfl, hm⟩ := hnew
      refine .inr ⟨[], m, delivered, rfl, ?_, hm, ?_⟩
      · simp [unseen, Entry.message?, hm]
      · intro m' hm'
        cases hm'
    · have hskip : unseen log newest (e :: delivered) = unseen log newest delivered := by
        refine List.dropWhile_cons_of_pos ?_
        cases e <;> simp_all [Entry.message?]
      have hold : ∀ m ∈ messages [e], ¬Newer log newest m := by
        intro m hm hmnew
        have he : .message m = e := List.mem_singleton.1 (mem_messages.1 hm)
        exact hnew ⟨m, he.symm, hmnew⟩
      rw [hskip]
      rcases ih with ⟨hnil, hall⟩ | ⟨before, m, after, rfl, hunseen, hm, hbefore⟩
      · refine .inl ⟨hnil, ?_⟩
        intro m hm
        rw [messages_cons, List.mem_append] at hm
        exact hm.elim (hold m) (hall m)
      · refine .inr ⟨e :: before, m, after, rfl, hunseen, hm, ?_⟩
        intro m' hm'
        rw [messages_cons, List.mem_append] at hm'
        exact hm'.elim (hold m') (hbefore m')

/-- Every message between the history's newest one and the last one delivered was delivered since
the feed last started again. -/
theorem mem_delivered_of_newer {s : Session} {n : Nat} {newest m d : Message} (hnd : log.Nodup)
    (hdelivered : messages s.delivered <:+: log) (hend : (log.take n).getLast? = some newest)
    (hearlier : ∀ m ∈ messages s.earlier, m ∈ log.take n) (hbegan : s.Began log n)
    (hm : Newer log newest m) (hmem : d ∈ messages (s.earlier ++ s.delivered))
    (hd : m = d ∨ Newer log m d) : m ∈ messages s.delivered := by
  obtain ⟨first, hhead, hfirst⟩ := hbegan
  obtain ⟨seen, fresh, hsplit, hseen, rest, hrest⟩ :=
    exists_split_of_isInfix hnd hdelivered hhead hfirst
  have hcut : log = log.take n ++ log.drop n := (List.take_append_drop n log).symm
  have hnd' : (log.take n ++ log.drop n).Nodup := hcut ▸ hnd
  have hapart : ∀ x, x ∈ log.take n → x ∉ log.drop n := by
    intro x hx hx'
    exact (List.nodup_append.1 hnd').2.2 x hx x hx' rfl
  have hm' : m ∈ log.drop n := by
    rw [hcut] at hm
    exact (newer_iff hnd' hend).1 hm
  have hd' : d ∈ log.drop n := by
    rcases hd with rfl | hnewer
    · exact hm'
    · rw [hcut] at hnewer
      exact hnewer.mem_right hnd' hm'
  rw [messages_append, List.mem_append, hsplit, List.mem_append] at hmem
  rw [hsplit, List.mem_append]
  rcases hmem with hmem | hmem | hmem
  · exact absurd hd' (hapart d (hearlier d hmem))
  · exact absurd hd' (hapart d (hseen d hmem))
  · -- What follows the delivered messages in the log is not before `d`.
    rw [← hrest, List.mem_append] at hm'
    refine .inr (hm'.resolve_right fun hafter => ?_)
    have hcut' : log = (log.take n ++ fresh) ++ rest := by
      rw [List.append_assoc, hrest, ← hcut]
    have hnd'' : ((log.take n ++ fresh) ++ rest).Nodup := hcut' ▸ hnd
    have hlate : d ∈ rest := by
      rcases hd with rfl | hnewer
      · exact hafter
      · rw [hcut'] at hnewer
        exact hnewer.mem_right hnd'' hafter
    exact (List.nodup_append.1 hnd'').2.2 d (List.mem_append_right _ hmem) d hlate rfl

/-- The newest messages delivered are all in the feed if and only if no message had to give way. -/
theorem newer_retained_iff {capacity : Nat} (hcap : 0 < capacity) {delivered : List Entry}
    (hnd : (messages delivered).Nodup) (newest : Message) :
    (∀ m ∈ messages delivered, Newer log newest m →
        m ∈ messages (Feed.retained capacity delivered)) ↔
      messages (Feed.overflow capacity (unseen log newest delivered)) = [] := by
  obtain ⟨hnil, hnone⟩ | ⟨before, m, after, rfl, hunseen, hm, hbefore⟩ :=
    unseen_cases log newest delivered
  · rw [hnil]
    refine iff_of_true ?_ (by simp [Feed.overflow])
    intro m hm hnewer
    exact absurd hnewer (hnone m hm)
  · rw [hunseen]
    constructor
    · intro hall
      exact (Feed.mem_messages_retained_iff hcap hnd).1 (hall m (by simp) hm)
    · intro hover m' hm' hnewer
      rw [messages_append, messages_message, List.mem_append] at hm'
      exact (Feed.messages_subset_retained_iff hcap hnd).2 hover
        (hm'.resolve_left fun hmem => hbefore m' hmem hnewer)

theorem bounds_run (s : Session) (events : List Event) :
    (s.run events).conversation.bounds = s.conversation.bounds := by
  induction events generalizing s with
  | nil => rfl
  | cons event events ih =>
    have hnext : (s.next event).conversation.bounds = s.conversation.bounds := by
      cases event with
      | store count => rfl
      | operate op => exact bounds_apply _ _
    exact (ih _).trans hnext

/-- **The border.** Where the history ends at the present, every message behind its newest one is
in the feed, up to the last one delivered, if and only if since the first of these only notices
had to give way to later entries. -/
theorem borders_iff (hd : Distinct log) {poolId : String} {bounds : Bounds} (hb : bounds.Usable)
    {events : List Event}
    (hrun : Follows (DeliversStored log size) (start poolId bounds) events) {h : History}
    (hh : ((start poolId bounds).run events).conversation.history = some h)
    (hpresent : h.atPresent = true) :
    ∃ newest, (messages h.entries).getLast? = some newest ∧ newest ∈ log ∧
      (((start poolId bounds).run events).Borders log newest ↔
        messages (Feed.overflow bounds.capacity
          (unseen log newest ((start poolId bounds).run events).delivered)) = []) := by
  have hs : ((start poolId bounds).run events).Bordering log size :=
    hrun.invariant (fun _ _ => bordering_next hd) (bordering_start log size poolId bounds)
  have hbounds : ((start poolId bounds).run events).conversation.bounds = bounds :=
    bounds_run (start poolId bounds) events
  obtain ⟨n, hn, ⟨newest, hlog, hnewest⟩, hearlier, hbegan⟩ := hs.present h hh hpresent
  have hcap : 0 < bounds.capacity := Nat.zero_lt_of_lt hb
  have hnd : (messages ((start poolId bounds).run events).delivered).Nodup :=
    List.Nodup.sublist hs.delivered.sublist hd.nodup
  refine ⟨newest, hnewest, List.mem_of_mem_take (List.mem_of_mem_getLast? hlog), ?_⟩
  rw [← newer_retained_iff hcap hnd, Borders, hs.tracks.feed_entries, hbounds]
  constructor
  · intro hborders m hm hnewer
    exact hborders m hnewer ⟨m, by rw [messages_append]; exact List.mem_append_right _ hm, .inl rfl⟩
  · rintro hall m hnewer ⟨d, hmem, hd'⟩
    exact hall m (mem_delivered_of_newer hd.nodup hs.delivered hlog hearlier hbegan hnewer hmem hd')
      hnewer

/-! ## Two feeds that move on -/

def fourMessages : List Message := ["m1", "m2", "m3", "m4"].map .ofId

/-- Message `m1` is delivered and loaded as history, then three entries are delivered. -/
def loadThenPush (e e' e'' : Entry) : List Event :=
  [.store 1, .operate (.push (.message (.ofId "m1"))), .operate .askOlder,
    .operate (.receive (.ok (.asNewest (.numbered 0 [.message (.ofId "m1")])))), .store 3,
    .operate (.push e), .operate (.push e'), .operate (.push e'')]

theorem follows_loadThenPush {e e' e'' : Entry}
    (hwithin : Follows (StaysWithin fourMessages) (start "pool" (.ofCapacity 2))
      (loadThenPush e e' e''))
    (hstored : Follows (fun s event => ∀ m ∈ messages (s.next event).delivered,
      m ∈ fourMessages.take (s.next event).stored) (start "pool" (.ofCapacity 2))
      (loadThenPush e e' e'')) :
    Follows (DeliversStored fourMessages 1) (start "pool" (.ofCapacity 2))
      (loadThenPush e e' e'') := by
  have hreads : Follows (ReadsHonestly fourMessages 1) (start "pool" (.ofCapacity 2))
      (loadThenPush e e' e'') :=
    ⟨trivial, trivial, trivial, fun _ => readBetween_ok_iff.2 (by decide), trivial, trivial,
      trivial, trivial, trivial⟩
  exact ((hwithin.and hreads).and hstored).mono fun s event h => ⟨⟨h.1.1, h.1.2⟩, h.2⟩

/-- Two notices come after `m2`. A feed of two lets the first of them go. -/
def noticesOnly : List Event :=
  loadThenPush (.message (.ofId "m2")) (.membership ⟨"bob", 0, true⟩)
    (.membership ⟨"bob", 1, false⟩)

theorem borders_iff_noticesOnly :
    let s := (start "pool" (.ofCapacity 2)).run noticesOnly
    ∃ newest, s.conversation.history = some ⟨⟨[.message newest], [1], 0, true, true⟩, rfl⟩ ∧
      s.Borders fourMessages newest := by
  intro s
  have hd : Distinct fourMessages := by decide
  have hb : (Bounds.ofCapacity 2).Usable := by decide
  have hrun : Follows (DeliversStored fourMessages 1) (start "pool" (.ofCapacity 2)) noticesOnly :=
    follows_loadThenPush (by decide) (by decide)
  have hh : s.conversation.history =
      some ⟨⟨[.message (.ofId "m1")], [1], 0, true, true⟩, rfl⟩ := by decide
  obtain ⟨newest, hlast, -, hiff⟩ := borders_iff hd hb hrun hh rfl
  obtain rfl : .ofId "m1" = newest := Option.some.inj hlast
  exact ⟨_, hh, hiff.2 (by decide)⟩

/-- A feed of two lets `m2` go. -/
def outrun : List Event :=
  loadThenPush (.message (.ofId "m2")) (.message (.ofId "m3")) (.message (.ofId "m4"))

/-- The history claims to end at the present, and no newer page can be asked for. Message `m2`
stands neither in it nor in the feed. -/
theorem not_borders_outrun :
    let s := (start "pool" (.ofCapacity 2)).run outrun
    Follows (DeliversStored fourMessages 1) (start "pool" (.ofCapacity 2)) outrun ∧
      s.conversation.history = some ⟨⟨[.message (.ofId "m1")], [1], 0, true, true⟩, rfl⟩ ∧
      s.conversation.askNewer.2 = .error .atPresent ∧
      messages s.conversation.feed.entries = ["m3", "m4"].map .ofId ∧
      ¬s.Borders fourMessages (.ofId "m1") := by
  intro s
  refine ⟨follows_loadThenPush (by decide) (by decide), by decide, by decide, by decide, ?_⟩
  intro hborders
  have hm : Message.ofId "m2" ∈ messages s.conversation.feed.entries :=
    hborders (.ofId "m2") (by decide) ⟨.ofId "m2", by decide, .inl rfl⟩
  revert hm
  decide

end Session

end Timeline
