import Timeline.Proofs.Capacity
import Timeline.Proofs.LogPages

/-!
# Reading a whole archive, back and forth

A reader who starts in live mode and asks for older pages again and again gets to the beginning of
the conversation, and from there to its end by asking for newer pages.

**Storage** (`Archive.complete`). All messages of a log, in pages of one size.

**The invariant** (`History.Along`). The loaded pages are pages of storage, and the history ends at
the present if and only if its newest page is the last one. Pages are dropped at the other end while
the reader moves, and at the present the history is aligned with the feed. Neither moves the border
at which the next page is asked for.

Main statement: `Conversation.walk`, each page is read once in either direction, and then no more is
asked for.
-/

namespace Timeline

/-! ## A complete archive -/

namespace Archive

/-- Storage that holds the whole log. -/
def complete (log : List Message) (size : Nat) : Archive := .ofLog log size log.length

/-- The answer of storage as a conversation takes it. -/
def reply (a : Archive) (r : PageRequest) : Reply := (a.answer r).mapError ArchiveError.message

theorem entries_complete (log : List Message) (size : Nat) :
    (complete log size).entries = log.map .message := by
  rw [complete, ofLog, List.take_length]

theorem pageSize_complete (log : List Message) (size : Nat) :
    (complete log size).pageSize = size :=
  rfl

end Archive

/-- Page `k` of a complete archive. -/
def Page.ofLog (log : List Message) (size k : Nat) : Page :=
  ⟨k, (logPage log size k).map .message, k == 0, k == (Archive.complete log size).lastNumber⟩

variable {log : List Message} {size : Nat}

/-- The place of a message in the log is in the range of its page. -/
theorem split_of_mem_logPage {m : Message} {k : Nat} (hm : m ∈ logPage log size k) :
    ∃ before after, log = before ++ m :: after ∧ k * size ≤ before.length ∧
      before.length < (k + 1) * size := by
  obtain ⟨front, rest, hpage⟩ := List.append_of_mem hm
  have hlength := congrArg List.length hpage
  rw [logPage, List.length_take, List.length_drop, List.length_append, List.length_cons] at hlength
  have hlog : log = log.take (k * size) ++
      (logPage log size k ++ (log.drop (k * size)).drop size) := by
    rw [logPage, List.take_append_drop, List.take_append_drop]
  refine ⟨log.take (k * size) ++ front, rest ++ (log.drop (k * size)).drop size, ?_, ?_, ?_⟩
  · rw [hpage] at hlog
    simpa using hlog
  · rw [List.length_append, List.length_take]
    omega
  · rw [List.length_append, List.length_take, Nat.add_mul, Nat.one_mul]
    omega

theorem lt_length_of_mem_logPage {m : Message} {k : Nat} (hm : m ∈ logPage log size k) :
    k * size < log.length := by
  obtain ⟨before, after, rfl, hle, -⟩ := split_of_mem_logPage hm
  rw [List.length_append, List.length_cons]
  omega

/-- The pages of a complete archive that hold a message are those up to the last one. -/
theorem le_lastNumber_iff (hsize : 0 < size) (hne : log ≠ []) {k : Nat} :
    k ≤ (Archive.complete log size).lastNumber ↔ k * size < log.length := by
  have hpos := List.length_pos_iff.2 hne
  have hlast : (Archive.complete log size).lastNumber = (log.length - 1) / size := by
    rw [Archive.lastNumber, Archive.entries_complete, Archive.pageSize_complete, List.length_map,
      Nat.max_eq_left hpos]
  rw [hlast, Nat.le_div_iff_mul_le hsize]
  omega

theorem page?_complete (hsize : 0 < size) {k : Nat}
    (hk : k ≤ (Archive.complete log size).lastNumber) :
    (Archive.complete log size).page? k = some (.ofLog log size k) := by
  have hentries : ((log.map Entry.message).drop (k * size)).take size =
      (logPage log size k).map .message := by
    rw [logPage, List.map_take, List.map_drop]
  have hstored : ¬(size = 0 ∨ (Archive.complete log size).lastNumber < k) := by omega
  rw [Archive.page?, Archive.entries_complete, Archive.pageSize_complete, if_neg hstored, hentries]
  by_cases hlast : k = (Archive.complete log size).lastNumber
  · simp [Page.ofLog, Page.asNewest, Page.numbered, ← hlast]
  · simp [Page.ofLog, Page.numbered, hlast]

theorem entries_ofLog_ne_nil (hsize : 0 < size) (hne : log ≠ []) {k : Nat}
    (hk : k ≤ (Archive.complete log size).lastNumber) : (Page.ofLog log size k).entries ≠ [] := by
  have hlt := (le_lastNumber_iff hsize hne).1 hk
  rw [← List.length_pos_iff, Page.ofLog, List.length_map, logPage, List.length_take,
    List.length_drop]
  omega

theorem reply_number (hsize : 0 < size) {k : Nat}
    (hk : k ≤ (Archive.complete log size).lastNumber) (d : Direction) :
    (Archive.complete log size).reply ⟨.number k, d⟩ = .ok (.ofLog log size k) := by
  have hread : ¬(Archive.complete log size).reads ∈ (Archive.complete log size).outages :=
    List.not_mem_nil
  rw [Archive.reply, Archive.answer, if_neg hread]
  show (Archive.lookUp _ k).mapError _ = _
  rw [Archive.lookUp, page?_complete hsize hk]
  rfl

/-- A message is found at its place in the log. -/
theorem numberOf?_complete (hd : Distinct log) {m : Message} {k : Nat}
    (hm : m ∈ logPage log size k) : (Archive.complete log size).numberOf? m.id = some k := by
  obtain ⟨before, after, rfl, hle, hlt⟩ := split_of_mem_logPage hm
  have hsize : max size 1 = size := by
    rcases Nat.eq_zero_or_pos size with rfl | hpos
    · exact absurd hlt (Nat.not_lt_zero _)
    · exact Nat.max_eq_left hpos
  -- No message before it has its id.
  have hbefore : (before.map Entry.message).findIdx? (fun e => e.id? == some m.id) = none := by
    rw [List.findIdx?_eq_none_iff]
    intro e he
    obtain ⟨m', hm', rfl⟩ := List.mem_map.1 he
    simpa [Entry.id?] using hd.not_mem_before hm'
  have hindex : ((before ++ m :: after).map Entry.message).findIdx? (fun e => e.id? == some m.id) =
      some before.length := by
    rw [List.map_append, List.findIdx?_append, hbefore, List.map_cons]
    simp [List.findIdx?_cons, Entry.id?]
  rw [Archive.numberOf?, Archive.entries_complete, Archive.pageSize_complete, hindex,
    Option.map_some, hsize, Nat.div_eq_of_lt_le hle hlt]

theorem reply_message (hd : Distinct log) (hsize : 0 < size) {m : Message} {k : Nat}
    (hm : m ∈ logPage log size k) (d : Direction) :
    (Archive.complete log size).reply ⟨.message m.id, d⟩ = .ok (.ofLog log size k) := by
  have hlt := lt_length_of_mem_logPage hm
  have hne : log ≠ [] := List.length_pos_iff.1 (by omega)
  have hk := (le_lastNumber_iff hsize hne).2 hlt
  have hread : ¬(Archive.complete log size).reads ∈ (Archive.complete log size).outages :=
    List.not_mem_nil
  rw [Archive.reply, Archive.answer, if_neg hread]
  dsimp only
  rw [numberOf?_complete hd hm]
  show (Archive.lookUp _ k).mapError _ = _
  rw [Archive.lookUp, page?_complete hsize hk]
  rfl

/-! ## Histories on the way -/

namespace History

/-- The history is made of pages up to `last`, and ends at the present if and only if it ends with
page `last`. -/
structure Along (last : Nat) (h : History) : Prop where
  newer_le : h.newer ≤ last + 1
  atPresent : h.atPresent = (h.newer == last + 1)
  beginning : h.atBeginning = true → h.oldest = 0

variable {last : Nat} {h : History}

theorem Along.older?_eq (hh : Along last h) :
    h.older? = if h.oldest = 0 then none else some (h.oldest - 1) := by
  unfold Raw.older?
  cases hbeg : h.atBeginning with
  | true => simp [hh.beginning hbeg]
  | false => simp

theorem Along.isSome_older? (hh : Along last h) : h.older?.isSome = (h.oldest != 0) := by
  rw [hh.older?_eq]
  by_cases hzero : h.oldest = 0 <;> simp [hzero]

theorem Along.oldest_le (hh : Along last h) : h.oldest ≤ last := by
  have hpos := h.pages_pos
  have hle := hh.newer_le
  rw [Raw.newer] at hle
  omega

theorem Along.shortened (hh : Along last h) {h' : History} {k : Nat} (hs : Shortened h h' k) :
    Along last h' where
  newer_le := hs.newer ▸ hh.newer_le
  atPresent := by rw [hs.newer, hs.atPresent, hh.atPresent]
  beginning := by
    rw [hs.atBeginning, hs.oldest, Bool.and_eq_true, beq_iff_eq]
    rintro ⟨hbeg, rfl⟩
    exact hh.beginning hbeg

/-- At the present the history may be aligned with any feed. -/
theorem Along.alignedAtPresent (hh : Along last h) (c : Conversation) :
    Along last (c.alignedAtPresent h) ∧ (c.alignedAtPresent h).newer = h.newer := by
  obtain ⟨k, -, hs⟩ := c.shortened_alignedAtPresent h
  exact ⟨hh.shortened hs, hs.newer⟩

/-- A single page stays whatever it is aligned with. -/
theorem oldest_alignedAtPresent_ofPage (p : Page) (c : Conversation) :
    (c.alignedAtPresent (.ofPage p)).oldest = p.number := by
  obtain ⟨k, hk, hs⟩ := c.shortened_alignedAtPresent (.ofPage p)
  obtain rfl : k = 0 := Nat.le_zero.1 hk
  exact hs.oldest

theorem along_ofPage {k : Nat} (hk : k ≤ (Archive.complete log size).lastNumber) :
    Along (Archive.complete log size).lastNumber (.ofPage (.ofLog log size k)) where
  newer_le := Nat.succ_le_succ hk
  atPresent := by
    show (k == _) = (k + 1 == _ + 1)
    rw [Bool.eq_iff_iff]
    simp
  beginning := by
    show ((k == 0) || (k == 0)) = true → k = 0
    simp

/-- The page before the history goes in front, and pages may give way at the back. -/
theorem Along.pushFront (hh : Along last h) {p : Page} (hnext : p.number + 1 = h.oldest)
    (hbegin : p.isBeginning = (p.number == 0)) (capacity : Nat) :
    Along last (h.pushFront p capacity) ∧ (h.pushFront p capacity).oldest = p.number := by
  obtain ⟨lost, hlost, hlen, -, holdest, hpresent, hbeginning⟩ := h.pushFront_spec p capacity
  have hle := hh.newer_le
  have hnewer : (h.pushFront p capacity).newer + lost = h.newer := by
    rw [Raw.newer, Raw.newer, holdest]
    omega
  refine ⟨⟨by omega, ?_, ?_⟩, holdest⟩
  · rw [hpresent, hh.atPresent]
    rcases Nat.eq_zero_or_pos lost with rfl | hpos
    · have hsame : (h.pushFront p capacity).newer = h.newer := hnewer
      rw [hsame, beq_self_eq_true, Bool.and_true]
    · have hlast : (h.pushFront p capacity).newer ≠ last + 1 := by omega
      rw [beq_false_of_ne hlast, beq_false_of_ne (Nat.ne_of_gt hpos), Bool.and_false]
  · rw [hbeginning, hbegin, holdest]
    simp

/-- The page after the history goes to the back, and pages may give way in front. -/
theorem Along.pushBack (hh : Along last h) (hpresent : h.atPresent = false) {p : Page}
    (hnewest : p.isNewest = (h.newer == last)) (capacity : Nat) :
    Along last (h.pushBack p capacity) ∧ (h.pushBack p capacity).newer = h.newer + 1 := by
  obtain ⟨k, -, hs, -⟩ := h.pushBack_spec p capacity
  have hmore : h.newer ≠ last + 1 := by
    intro heq
    simp [hh.atPresent, heq] at hpresent
  have hle := hh.newer_le
  have hnewer := h.newer_joinBack p
  have hjoin : Along last (h.joinBack p) := {
    newer_le := by omega
    atPresent := by
      rw [hnewer]
      show p.isNewest = _
      rw [hnewest]
      simp
    beginning := hh.beginning }
  exact ⟨hjoin.shortened hs, hs.newer.trans hnewer⟩

end History

/-! ## One page -/

namespace Conversation

open History

variable {c : Conversation} {source : PageRequest → Reply} {p : Page}

theorem apply_fetchOlder_live (hw : c.awaited = none) (hh : c.history = none) {i : Nat}
    {id : String} (hanchor : c.feed.anchor? = some (i, id))
    (hp : source ⟨.message id, .older⟩ = .ok p) (hne : p.entries ≠ []) :
    c.apply (.fetchOlder source) =
      ({ c with history := some (c.alignedAtPresent (.ofPage p)), awaited := none },
        .fetched ⟨some ⟨.message id, .older⟩,
          .ok (c.alignedAtPresent (.ofPage p)).older?.isSome⟩) := by
  have hask : c.askOlder =
      ({ c with awaited := some ⟨.older, none⟩ }, .ok ⟨.message id, .older⟩) := by
    simp [askOlder, isWaiting, hw, hh, hanchor]
  have hfits : Awaited.misfit? ⟨.older, none⟩ p = none := misfit?_eq_none_iff.2 ⟨hne, by simp⟩
  rw [apply, fetchOlder, hask]
  simp only [hp, receive, hfits, merge, giveUp, hh]
  rfl

theorem apply_fetchOlder_history (hw : c.awaited = none) {h : History} (hh : c.history = some h)
    (hnext : h.older? = some p.number) (hp : source ⟨.number p.number, .older⟩ = .ok p)
    (hne : p.entries ≠ []) :
    c.apply (.fetchOlder source) =
      ({ c with history := some (h.pushFront p c.bounds.capacity), awaited := none },
        .fetched ⟨some ⟨.number p.number, .older⟩,
          .ok (h.pushFront p c.bounds.capacity).older?.isSome⟩) := by
  have hask : c.askOlder = ({ c with awaited := some ⟨.older, some p.number⟩ },
      .ok ⟨.number p.number, .older⟩) := by
    simp [askOlder, isWaiting, hw, hh, hnext]
  have hfits : Awaited.misfit? ⟨.older, some p.number⟩ p = none :=
    misfit?_eq_none_iff.2 ⟨hne, by simp⟩
  rw [apply, fetchOlder, hask]
  simp only [hp, receive, hfits, merge, giveUp, hh]
  rfl

theorem apply_fetchNewer_history (hw : c.awaited = none) {h : History} (hh : c.history = some h)
    (hpresent : h.atPresent = false) (hnext : p.number = h.newer)
    (hp : source ⟨.number p.number, .newer⟩ = .ok p) (hne : p.entries ≠ []) :
    c.apply (.fetchNewer source) =
      ({ c with
          history := some (c.alignedAtPresent (h.pushBack p c.bounds.capacity)), awaited := none },
        .fetched ⟨some ⟨.number p.number, .newer⟩,
          .ok !(c.alignedAtPresent (h.pushBack p c.bounds.capacity)).atPresent⟩) := by
  have hask : c.askNewer = ({ c with awaited := some ⟨.newer, some p.number⟩ },
      .ok (.request ⟨.number p.number, .newer⟩)) := by
    simp [askNewer, isWaiting, hw, hh, hpresent, hnext]
  have hfits : Awaited.misfit? ⟨.newer, some p.number⟩ p = none :=
    misfit?_eq_none_iff.2 ⟨hne, by simp⟩
  rw [apply, fetchNewer, hask]
  simp only [hp, receive, hfits, merge, giveUp, hh]
  rfl

theorem fetchOlder_beginning (hw : c.awaited = none) {h : History} (hh : c.history = some h)
    (hnone : h.older? = none) : c.fetchOlder source = (c, ⟨none, .error .noOlderPage⟩) := by
  simp [fetchOlder, askOlder, isWaiting, hw, hh, hnone]

/-- At the present nothing is asked for. -/
theorem asked_fetchNewer_present {h : History} (hh : c.history = some h)
    (hpresent : h.atPresent = true) : (c.fetchNewer source).2.asked = none := by
  obtain ⟨failure, hask⟩ | hask | ⟨h', -, hh', hpresent', -⟩ := askNewer_cases c
  · rw [fetchNewer, hask]
  · rw [fetchNewer, hask]
  · obtain rfl := Option.some.inj (hh.symm.trans hh')
    rw [hpresent] at hpresent'
    cases hpresent'

/-! ## All pages -/

theorem run_replicate_succ (c : Conversation) (op : Operation) (n : Nat) :
    c.run (List.replicate (n + 1) op) = (((c.apply op).1.run (List.replicate n op)).1,
      (c.apply op).2 :: ((c.apply op).1.run (List.replicate n op)).2) :=
  rfl

/-- The reader has loaded page `k` and goes back to the first one. -/
theorem walk_back (hsize : 0 < size) (hne : log ≠ []) {k : Nat} {h : History}
    (hw : c.awaited = none) (hh : c.history = some h)
    (halong : Along (Archive.complete log size).lastNumber h) (hk : h.oldest = k) :
    ∃ c' h', c.run (List.replicate k (.fetchOlder (Archive.complete log size).reply)) =
        (c', (List.range k).reverse.map fun n =>
          .fetched ⟨some ⟨.number n, .older⟩, .ok (n != 0)⟩) ∧
      c'.awaited = none ∧ c'.history = some h' ∧
      Along (Archive.complete log size).lastNumber h' ∧ h'.oldest = 0 := by
  induction k generalizing c h with
  | zero => exact ⟨c, h, rfl, hw, hh, halong, hk⟩
  | succ k ih =>
    have hle : k ≤ (Archive.complete log size).lastNumber := by
      have := halong.oldest_le
      omega
    have hnext : h.older? = some (Page.ofLog log size k).number := by
      rw [halong.older?_eq, hk]
      rfl
    have hbegin : (Page.ofLog log size k).isBeginning = (k == 0) := Bool.or_self _
    have hfetch := apply_fetchOlder_history hw hh hnext (reply_number hsize hle .older)
      (entries_ofLog_ne_nil hsize hne hle)
    obtain ⟨halong', holdest⟩ := halong.pushFront (p := .ofLog log size k) hk.symm hbegin
      c.bounds.capacity
    obtain ⟨c', h', hrun, hrest⟩ := ih (c := (c.apply (.fetchOlder _)).1) (by rw [hfetch])
      (by rw [hfetch]) halong' holdest
    refine ⟨c', h', ?_, hrest⟩
    rw [run_replicate_succ, hrun, hfetch, List.range_succ, List.reverse_concat, List.map_cons,
      halong'.isSome_older?, holdest]
    rfl

/-- The reader goes on to the last page. -/
theorem walk_forth (hsize : 0 < size) (hne : log ≠ []) {count : Nat} {h : History}
    (hw : c.awaited = none) (hh : c.history = some h)
    (halong : Along (Archive.complete log size).lastNumber h)
    (hcount : h.newer + count = (Archive.complete log size).lastNumber + 1) :
    ∃ c' h', c.run (List.replicate count (.fetchNewer (Archive.complete log size).reply)) =
        (c', (List.range' h.newer count).map fun n => .fetched ⟨some ⟨.number n, .newer⟩,
          .ok (n != (Archive.complete log size).lastNumber)⟩) ∧
      c'.awaited = none ∧ c'.history = some h' ∧ h'.atPresent = true := by
  induction count generalizing c h with
  | zero =>
    refine ⟨c, h, rfl, hw, hh, ?_⟩
    rw [halong.atPresent]
    simpa using hcount
  | succ count ih =>
    have hle : h.newer ≤ (Archive.complete log size).lastNumber := by omega
    have hpresent : h.atPresent = false := by
      rw [halong.atPresent]
      simp only [beq_eq_false_iff_ne]
      omega
    have hfetch := apply_fetchNewer_history (p := .ofLog log size h.newer) hw hh hpresent rfl
      (reply_number hsize hle .newer) (entries_ofLog_ne_nil hsize hne hle)
    obtain ⟨hpushed, hnewer⟩ := halong.pushBack (p := .ofLog log size h.newer) hpresent rfl
      c.bounds.capacity
    obtain ⟨halong', hsame⟩ := hpushed.alignedAtPresent c
    have hnewer' := hsame.trans hnewer
    obtain ⟨c', h', hrun, hrest⟩ := ih (c := (c.apply (.fetchNewer _)).1) (by rw [hfetch])
      (by rw [hfetch]) halong' (by omega)
    refine ⟨c', h', ?_, hrest⟩
    rw [run_replicate_succ, hrun, hfetch, List.range'_succ, List.map_cons, halong'.atPresent,
      hnewer']
    simp [bne, Page.ofLog]

/-- **Back and forth.** From live mode, with the feed's first message in page `k` of storage,
`k + 1` requests bring the pages from `k` down to 0, each of them once. All but the last tell that
there is more, and the next one is refused without a read. If the history no longer ends at the
present then, requests for newer pages bring the pages behind it up to the last one, again each of
them once and all but the last with more to come. The history then ends at the present, and nothing
is asked for. -/
theorem walk (hd : Distinct log) (hsize : 0 < size) (hw : c.awaited = none)
    (hlive : c.history = none) {first : Message}
    (hfirst : (messages c.feed.entries).head? = some first) {k : Nat}
    (hstored : ∃ m ∈ logPage log size k, m.id = first.id) :
    let storage := Archive.complete log size
    let last := storage.lastNumber
    k ≤ last ∧ storage.reply ⟨.message first.id, .older⟩ = .ok (.ofLog log size k) ∧
      (∀ n ≤ last, ∀ d, storage.reply ⟨.number n, d⟩ = .ok (.ofLog log size n)) ∧
      ∃ back h,
        c.run (List.replicate (k + 1) (.fetchOlder storage.reply)) =
          (back, .fetched ⟨some ⟨.message first.id, .older⟩, .ok (k != 0)⟩ ::
            (List.range k).reverse.map fun n =>
              .fetched ⟨some ⟨.number n, .older⟩, .ok (n != 0)⟩) ∧
        back.fetchOlder storage.reply = (back, ⟨none, .error .noOlderPage⟩) ∧
        back.history = some h ∧ h.oldest = 0 ∧
        (h.atPresent = false → h.newer ≤ last ∧ ∃ there h',
          back.run (List.replicate (last + 1 - h.newer) (.fetchNewer storage.reply)) =
            (there, (List.range' h.newer (last + 1 - h.newer)).map fun n =>
              .fetched ⟨some ⟨.number n, .newer⟩, .ok (n != last)⟩) ∧
          there.history = some h' ∧ h'.atPresent = true ∧
          (there.fetchNewer storage.reply).2.asked = none) := by
  intro storage last
  obtain ⟨m, hm, hid⟩ := hstored
  have hlt := lt_length_of_mem_logPage hm
  have hne : log ≠ [] := List.length_pos_iff.1 (by omega)
  have hk : k ≤ last := (le_lastNumber_iff hsize hne).2 hlt
  have hreply : storage.reply ⟨.message first.id, .older⟩ = .ok (.ofLog log size k) :=
    hid ▸ reply_message hd hsize hm .older
  obtain ⟨i, hanchor⟩ := Feed.exists_anchor? hfirst
  have hopen := apply_fetchOlder_live hw hlive hanchor hreply (entries_ofLog_ne_nil hsize hne hk)
  have halong : Along last (c.alignedAtPresent (.ofPage (.ofLog log size k))) :=
    ((along_ofPage hk).alignedAtPresent c).1
  have holdest : (c.alignedAtPresent (.ofPage (.ofLog log size k))).oldest = k :=
    oldest_alignedAtPresent_ofPage (.ofLog log size k) c
  obtain ⟨back, h, hrun, hidle, hh, halong', hzero⟩ := walk_back
    (c := (c.apply (.fetchOlder storage.reply)).1) hsize hne (by rw [hopen]) (by rw [hopen]) halong
    holdest
  refine ⟨hk, hreply, fun n hn => reply_number hsize hn, back, h, ?_, ?_, hh, hzero, ?_⟩
  · rw [run_replicate_succ, hrun, hopen, halong.isSome_older?, holdest]
  · refine fetchOlder_beginning hidle hh ?_
    rw [halong'.older?_eq, hzero, if_pos rfl]
  · intro hpresent
    have hle : h.newer ≤ last + 1 := halong'.newer_le
    have hmore : h.newer ≠ last + 1 := by
      intro heq
      rw [halong'.atPresent, heq, beq_self_eq_true] at hpresent
      cases hpresent
    have hcount : h.newer + (last + 1 - h.newer) = last + 1 := by omega
    obtain ⟨there, h', hforth, -, hh', hpresent'⟩ :=
      walk_forth hsize hne hidle hh halong' hcount
    exact ⟨by omega, there, h', hforth, hh', hpresent', asked_fetchNewer_present hh' hpresent'⟩

/-- A notice and `m7` were delivered to a conversation that holds four entries. -/
def readerAtEnd : Conversation :=
  ((empty "pool" (.ofCapacity 4)).run
    [.push (.membership ⟨"bob", 0, true⟩), .push (.message (.ofId "m7"))]).1

/-- Of seven messages in pages of two, the last two pages give way on the way back, and are read
again on the way forth. -/
theorem walk_readerAtEnd :
    let storage := Archive.complete sevenMessages 2
    ∃ back h there h',
      readerAtEnd.run (List.replicate 4 (.fetchOlder storage.reply)) =
        (back, [.fetched ⟨some ⟨.message "m7", .older⟩, .ok true⟩,
          .fetched ⟨some ⟨.number 2, .older⟩, .ok true⟩,
          .fetched ⟨some ⟨.number 1, .older⟩, .ok true⟩,
          .fetched ⟨some ⟨.number 0, .older⟩, .ok false⟩]) ∧
      back.history = some h ∧ h.newer = 2 ∧
      back.run (List.replicate 2 (.fetchNewer storage.reply)) =
        (there, [.fetched ⟨some ⟨.number 2, .newer⟩, .ok true⟩,
          .fetched ⟨some ⟨.number 3, .newer⟩, .ok false⟩]) ∧
      there.history = some h' ∧ h'.atPresent = true := by
  intro storage
  have hd : Distinct sevenMessages := by decide
  have hfirst : (messages readerAtEnd.feed.entries).head? = some (.ofId "m7") := by decide
  have hstored : ∃ m ∈ logPage sevenMessages 2 3, m.id = (Message.ofId "m7").id := by decide
  obtain ⟨-, -, -, back, h, hrun, -, hh, -, hforth⟩ :=
    walk hd (by decide) (by decide) (by decide) hfirst hstored
  have hback : (readerAtEnd.run (List.replicate 4 (.fetchOlder storage.reply))).1 = back :=
    congrArg Prod.fst hrun
  have hend : (readerAtEnd.run (List.replicate 4 (.fetchOlder storage.reply))).1.history.map
      (fun h => (h.newer, h.atPresent)) = some (2, false) := by decide
  rw [hback, hh, Option.map_some, Option.some.injEq, Prod.mk.injEq] at hend
  obtain ⟨hnewer, hpresent⟩ := hend
  obtain ⟨-, there, h', hrun', hh', hpresent', -⟩ := hforth hpresent
  rw [hnewer] at hrun'
  exact ⟨back, h, there, h', hrun, hh, hnewer, hrun', hh', hpresent'⟩

end Conversation

end Timeline
