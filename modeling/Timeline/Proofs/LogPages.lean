import Timeline.Proofs.Session

/-!
# The log in pages

**Pages of the log** (`logPage`). The log cut into pages of one size. A page of storage is a page
of the stored part of the log (`page_of_archive`). A page that ends inside the stored part is a
page of the whole log.

**Loaded pages** (`Covers`). The history holds consecutive pages of the first `stop` messages of
the log, and ends where these end. Each change of a history keeps this, with the same `stop` or
another one.

Main statements: `Covers.align`, `Covers.pushFront` and `Covers.pushBack`.
-/

namespace Timeline

/-- The messages of page `k` of a log. -/
def logPage (log : List Message) (size k : Nat) : List Message := (log.drop (k * size)).take size

/-- The messages of `count` pages of a log, from page `first` on. -/
def logPages (log : List Message) (size first count : Nat) : List (List Message) :=
  (List.range' first count).map (logPage log size)

/-! ## Pages of the log -/

/-- What is stored later does not change a page that was full. -/
theorem logPage_take {log : List Message} {size k n : Nat} (h : (k + 1) * size ≤ n) :
    logPage (log.take n) size k = logPage log size k := by
  rw [Nat.add_mul, Nat.one_mul] at h
  rw [logPage, logPage, List.drop_take, List.take_take, Nat.min_eq_left (by omega)]

theorem logPages_take {log : List Message} {size first count n : Nat}
    (h : (first + count) * size ≤ n) :
    logPages (log.take n) size first count = logPages log size first count := by
  refine List.map_congr_left fun k hk => logPage_take ?_
  have hlt := List.mem_range'_1.1 hk
  exact Nat.le_trans (Nat.mul_le_mul_right _ (by omega)) h

theorem drop_logPages (log : List Message) (size first count k : Nat) :
    (logPages log size first count).drop k = logPages log size (first + k) (count - k) := by
  rw [logPages, ← List.map_drop, List.drop_range', Nat.mul_one, logPages]

theorem take_logPages (log : List Message) (size first : Nat) {count k : Nat} (hk : k ≤ count) :
    (logPages log size first count).take k = logPages log size first k := by
  rw [logPages, ← List.map_take, List.take_range'_of_length_ge hk, logPages]

theorem logPages_cons (log : List Message) (size first count : Nat) :
    logPage log size first :: logPages log size (first + 1) count =
      logPages log size first (count + 1) := by
  rw [logPages, logPages, List.range'_succ, List.map_cons]

theorem logPages_concat (log : List Message) (size first count : Nat) :
    logPages log size first count ++ [logPage log size (first + count)] =
      logPages log size first (count + 1) := by
  rw [logPages, logPages, List.range'_1_concat, List.map_append, List.map_singleton]

/-- Consecutive pages are a part of the log. -/
theorem flatten_logPages (log : List Message) (size first count : Nat) :
    (logPages log size first count).flatten = (log.drop (first * size)).take (count * size) := by
  induction count generalizing first with
  | zero => simp [logPages]
  | succ count ih =>
    have hcount : (count + 1) * size = size + count * size := by
      rw [Nat.add_mul, Nat.one_mul, Nat.add_comm]
    have hfirst : (first + 1) * size = first * size + size := by rw [Nat.add_mul, Nat.one_mul]
    rw [← logPages_cons, List.flatten_cons, ih, logPage, hcount, hfirst, List.take_add,
      List.drop_drop]

/-- **Pages of storage.** A page of storage is a page of the stored part of the log, and is marked
as the newest if and only if that part ends with it. -/
theorem page_of_archive {log : List Message} {size n k : Nat} {p : Page} (hn : n ≤ log.length)
    (hp : (Archive.ofLog log size n).page? k = some p) (hne : p.entries ≠ []) :
    p.number = k ∧ messages p.entries = logPage (log.take n) size k ∧ 0 < size ∧ k * size < n ∧
      p.isBeginning = (k == 0) ∧ (p.isNewest = true ↔ n ≤ (k + 1) * size) := by
  unfold Archive.page? at hp
  split at hp
  · cases hp
  · next hk =>
    simp only [not_or, Nat.not_lt] at hk
    obtain ⟨hsize, hlast⟩ := hk
    have hentries : p.entries = (logPage (log.take n) size k).map .message := by
      rw [logPage, List.map_take, List.map_drop]
      split at hp <;> rw [← Option.some.inj hp] <;> rfl
    have hlt : k * size < n := by
      have hpos := List.length_pos_iff.2 hne
      rw [hentries, List.length_map, logPage, List.length_take, List.length_drop,
        List.length_take, Nat.min_eq_left hn] at hpos
      omega
    have hnumber : (Archive.ofLog log size n).lastNumber = (n - 1) / size := by
      simp only [Archive.lastNumber, Archive.ofLog, List.length_map, List.length_take]
      rw [Nat.min_eq_left hn, Nat.max_eq_left (by omega)]
    have hpos : 0 < size := Nat.pos_of_ne_zero hsize
    have hnewest : k = (Archive.ofLog log size n).lastNumber ↔ n ≤ (k + 1) * size := by
      rw [hnumber, eq_comm, Nat.div_eq_iff hpos]
      rw [Nat.add_mul, Nat.one_mul]
      omega
    have hmessages : messages p.entries = logPage (log.take n) size k := by
      rw [hentries, messages_map_message]
    split at hp
    · next heq =>
      obtain rfl := Option.some.inj hp
      exact ⟨rfl, hmessages, hpos, hlt, by simp [Page.isBeginning, Page.asNewest, Page.numbered],
        iff_of_true rfl (hnewest.1 heq)⟩
    · next hneq =>
      obtain rfl := Option.some.inj hp
      exact ⟨rfl, hmessages, hpos, hlt, by simp [Page.isBeginning, Page.numbered],
        iff_of_false Bool.false_ne_true (hneq ∘ hnewest.2)⟩

namespace History

/-! ## Histories made of pages of the log -/

/-- The history holds pages of the first `stop` messages of the log, and ends where these end. -/
structure Covers (log : List Message) (size : Nat) (h : History) (stop : Nat) : Prop where
  pieces : h.pieces.map messages = logPages (log.take stop) size h.oldest h.lengths.length
  starts : (h.newer - 1) * size < stop
  stops : stop ≤ h.newer * size
  /-- Only at the present the newest page may be shorter than the others. -/
  full : h.atPresent = false → stop = h.newer * size
  le_log : stop ≤ log.length
  beginning : h.atBeginning = true → h.oldest = 0

variable {log : List Message} {size stop : Nat} {h : History}

/-- Every page but the newest one is a page of the whole log. -/
theorem Covers.inner (hc : Covers log size h stop) {i : Nat} (hi : i + 1 < h.lengths.length) :
    h.pieces[i]?.map messages = some (logPage log size (h.oldest + i)) := by
  have hget : h.pieces[i]?.map messages = some (logPage (log.take stop) size (h.oldest + i)) := by
    rw [← List.getElem?_map, hc.pieces, logPages, List.getElem?_map,
      List.getElem?_range' (by omega), Option.map_some, Nat.one_mul]
  have hle : (h.oldest + i + 1) * size ≤ (h.newer - 1) * size :=
    Nat.mul_le_mul_right _ (by rw [Raw.newer]; omega)
  rw [hget, logPage_take (Nat.le_trans hle (Nat.le_of_lt hc.starts))]

/-- The newest page is a page of the log as it was when `stop` messages were stored. -/
theorem Covers.newest (hc : Covers log size h stop) :
    messages h.lastPage = logPage (log.take stop) size (h.newer - 1) := by
  have hpos := h.pages_pos
  have hlast : (h.pieces.map messages).getLast? = some (messages h.lastPage) := by
    rw [List.getLast?_map, lastPage_eq_getLast, Option.map_some]
  have hnumber : h.newer - 1 = h.oldest + (h.lengths.length - 1) := by
    rw [Raw.newer]
    omega
  have hlen : h.lengths.length = h.lengths.length - 1 + 1 := by omega
  rw [hc.pieces, hlen, ← logPages_concat, List.getLast?_concat] at hlast
  rw [hnumber]
  exact (Option.some.inj hlast).symm

theorem Covers.newest_ne_nil (hc : Covers log size h stop) : messages h.lastPage ≠ [] := by
  have hstarts := hc.starts
  have hsize : 0 < size := by
    rcases Nat.eq_zero_or_pos size with rfl | hpos
    · have hstops := hc.stops
      omega
    · exact hpos
  have hlen : (messages h.lastPage).length = min size (stop - (h.newer - 1) * size) := by
    rw [hc.newest, logPage, List.length_take, List.length_drop,
      List.length_take_of_le hc.le_log]
  exact List.length_pos_iff.1 (by omega)

theorem Covers.newest_prefix (hc : Covers log size h stop) :
    messages h.lastPage <+: logPage log size (h.newer - 1) := by
  rw [hc.newest, logPage, logPage, List.drop_take, List.take_take]
  exact List.take_prefix_take_left (Nat.min_le_left _ _)

/-- Where the history does not end at the present, its newest page was read in full. -/
theorem Covers.newest_full (hc : Covers log size h stop) (hpresent : h.atPresent = false) :
    messages h.lastPage = logPage log size (h.newer - 1) := by
  have hpos : 0 < h.newer := by
    have := h.pages_pos
    rw [Raw.newer]
    omega
  have hle : (h.newer - 1 + 1) * size ≤ stop := by
    rw [Nat.sub_add_cancel hpos]
    exact Nat.le_of_eq (hc.full hpresent).symm
  rw [hc.newest, logPage_take hle]

/-- The history ends where storage ended. -/
theorem Covers.messages_suffix (hc : Covers log size h stop) :
    messages h.entries <:+ log.take stop := by
  have hend : (log.take stop).length - h.oldest * size ≤ h.lengths.length * size := by
    have hstops := hc.stops
    rw [Raw.newer, Nat.add_mul] at hstops
    rw [List.length_take_of_le hc.le_log]
    omega
  rw [← flatten_pieces, messages_flatten, hc.pieces,
    flatten_logPages, List.take_of_length_le (by rwa [List.length_drop])]
  exact List.drop_suffix _ _

/-- What is loaded is a part of the log. -/
theorem Covers.messages_isInfix (hc : Covers log size h stop) : messages h.entries <:+: log :=
  hc.messages_suffix.isInfix.trans (List.take_prefix _ _).isInfix

theorem Covers.startsAtBeginning_iff (hc : Covers log size h stop) :
    h.startsAtBeginning = true ↔ h.oldest = 0 := by
  unfold Raw.startsAtBeginning Raw.older?
  cases hbeg : h.atBeginning with
  | true => simp [hc.beginning hbeg]
  | false =>
    by_cases hzero : h.oldest = 0
    · simp [hzero]
    · simp [hzero]

/-- Dropping pages at the front leaves pages of the log. -/
theorem Covers.shortened (hc : Covers log size h stop) {h' : History} {k : Nat}
    (hs : Shortened h h' k) (hpieces : h'.pieces.map messages = (h.pieces.map messages).drop k) :
    Covers log size h' stop where
  pieces := by
    have hlen : h.lengths.length - k = h'.lengths.length := by
      have := hs.pages
      omega
    rw [hpieces, hc.pieces, drop_logPages, hs.oldest, hlen]
  starts := hs.newer ▸ hc.starts
  stops := hs.newer ▸ hc.stops
  full := by
    rw [hs.newer, hs.atPresent]
    exact hc.full
  le_log := hc.le_log
  beginning := by
    rw [hs.atBeginning, hs.oldest, Bool.and_eq_true, beq_iff_eq]
    rintro ⟨hbeg, rfl⟩
    exact hc.beginning hbeg

theorem Covers.align (hd : Distinct log) (hc : Covers log size h stop) {feed : Feed}
    (hf : messages feed.entries <:+: log) (capacity : Nat) :
    Covers log size (h.align feed capacity).1 stop := by
  obtain ⟨k, -, hs, hpieces⟩ := align_spec hd hc.messages_isInfix hf capacity
  exact hc.shortened hs hpieces

/-- A page as it was when `n` messages were stored, cut off where it ends. -/
theorem logPage_take_min (log : List Message) (size k n : Nat) :
    logPage (log.take (min n ((k + 1) * size))) size k = logPage (log.take n) size k := by
  rcases Nat.le_total n ((k + 1) * size) with hle | hle
  · rw [Nat.min_eq_left hle]
  · rw [Nat.min_eq_right hle, logPage_take (Nat.le_refl _), logPage_take hle]

/-- A history of one page of storage. -/
theorem Covers.ofPage {n k : Nat} {p : Page} (hn : n ≤ log.length)
    (hp : (Archive.ofLog log size n).page? k = some p) (hne : p.entries ≠ []) :
    Covers log size (.ofPage p) (min n ((k + 1) * size)) := by
  obtain ⟨rfl, hmessages, hsize, hlt, hbegin, hnewest⟩ := page_of_archive hn hp hne
  have hnewer : (History.ofPage p).newer = p.number + 1 := rfl
  have hnext : (p.number + 1) * size = p.number * size + size := by rw [Nat.add_mul, Nat.one_mul]
  exact {
    pieces := by
      have hpieces : (History.ofPage p).pieces = [p.entries] := by
        simp [Raw.pieces, History.ofPage, Raw.ofPage, Page.size]
      rw [hpieces, List.map_singleton, hmessages, ← logPage_take_min]
      rfl
    starts := by
      rw [hnewer, Nat.add_sub_cancel]
      omega
    stops := by
      rw [hnewer]
      omega
    full := by
      intro hpresent
      have hmore : ¬n ≤ (p.number + 1) * size := by
        intro hle
        exact Bool.false_ne_true (hpresent.symm.trans (hnewest.2 hle))
      rw [hnewer]
      omega
    le_log := by omega
    beginning := by
      intro hbeg
      exact beq_iff_eq.1 (hbegin.symm.trans hbeg) }

/-- The next page goes to the back. -/
theorem Covers.joinBack (hc : Covers log size h stop) (hpresent : h.atPresent = false) {n : Nat}
    {p : Page} (hn : n ≤ log.length)
    (hp : (Archive.ofLog log size n).page? h.newer = some p) (hne : p.entries ≠ []) :
    Covers log size (h.joinBack p) (min n ((h.newer + 1) * size)) := by
  obtain ⟨hnumber, hmessages, hsize, hlt, -, hnewest⟩ := page_of_archive hn hp hne
  have hstop : stop = h.newer * size := hc.full hpresent
  have hnewer := h.newer_joinBack p
  have hnext : (h.newer + 1) * size = h.newer * size + size := by rw [Nat.add_mul, Nat.one_mul]
  exact {
    pieces := by
      have hold : logPages (log.take (min n ((h.newer + 1) * size))) size h.oldest
          h.lengths.length = logPages (log.take stop) size h.oldest h.lengths.length := by
        have hle : (h.oldest + h.lengths.length) * size ≤ min n ((h.newer + 1) * size) := by
          rw [← Raw.newer]
          omega
        rw [logPages_take hle, logPages_take (Nat.le_of_eq hstop.symm)]
      rw [pieces_joinBack, List.map_append, List.map_singleton, hc.pieces, hmessages,
        pages_joinBack, ← logPages_concat, ← logPage_take_min, ← hold]
      rfl
    starts := by
      rw [hnewer, Nat.add_sub_cancel]
      omega
    stops := by
      rw [hnewer]
      omega
    full := by
      intro hnot
      have hmore : ¬n ≤ (h.newer + 1) * size := by
        intro hle
        exact Bool.false_ne_true (hnot.symm.trans (hnewest.2 hle))
      rw [hnewer]
      omega
    le_log := by omega
    beginning := hc.beginning }

theorem Covers.pushBack (hc : Covers log size h stop) (hpresent : h.atPresent = false) {n : Nat}
    {p : Page} (hn : n ≤ log.length)
    (hp : (Archive.ofLog log size n).page? h.newer = some p) (hne : p.entries ≠ [])
    (capacity : Nat) :
    Covers log size (h.pushBack p capacity) (min n ((h.newer + 1) * size)) := by
  obtain ⟨k, -, hs, hpieces⟩ := h.pushBack_spec p capacity
  refine (hc.joinBack hpresent hn hp hne).shortened hs ?_
  rw [hpieces, ← pieces_joinBack, List.map_drop]

/-- The page before the history ends where the history starts, so it was read in full. -/
theorem Covers.page_before (hc : Covers log size h stop) {k : Nat} (hk : k + 1 = h.oldest) :
    (k + 1) * size ≤ stop := by
  have hpos := h.pages_pos
  have hstarts := hc.starts
  have hle : (k + 1) * size ≤ (h.newer - 1) * size :=
    Nat.mul_le_mul_right _ (by rw [Raw.newer]; omega)
  omega

theorem Covers.pieces_pushFront (hc : Covers log size h stop) {n k : Nat} {p : Page}
    (hk : k + 1 = h.oldest) (hstop : stop ≤ n)
    (hmessages : messages p.entries = logPage (log.take n) size k) (capacity : Nat) :
    (h.pushFront p capacity).pieces.map messages =
      logPages (log.take stop) size k (h.pushFront p capacity).lengths.length := by
  obtain ⟨lost, hlost, hlen, hpieces, -⟩ := h.pushFront_spec p capacity
  have hfront := hc.page_before hk
  have hread : messages p.entries = logPage (log.take stop) size k := by
    rw [hmessages, logPage_take (Nat.le_trans hfront hstop), logPage_take hfront]
  have hkept : h.lengths.length + 1 - lost = (h.pushFront p capacity).lengths.length := by omega
  rw [hpieces, List.map_take, List.map_cons, hread, hc.pieces, ← hk, logPages_cons,
    take_logPages _ _ _ (by omega), hkept]

/-- The page before the history goes in front. Where pages at the back give way to it, the
history ends with a page that was full. -/
theorem Covers.pushFront (hc : Covers log size h stop) {n k : Nat} {p : Page}
    (hk : k + 1 = h.oldest) (hn : n ≤ log.length) (hstop : stop ≤ n)
    (hp : (Archive.ofLog log size n).page? k = some p) (hne : p.entries ≠ []) (capacity : Nat) :
    ∃ stop' ≤ stop, Covers log size (h.pushFront p capacity) stop' := by
  obtain ⟨hnumber, hmessages, hsize, -, hbegin, -⟩ := page_of_archive hn hp hne
  have hjoined := hc.pieces_pushFront hk hstop hmessages capacity
  have hpos := h.pages_pos
  have hstarts := hc.starts
  obtain ⟨lost, hlost, hlen, -, holdest, hpresent, hbeginning⟩ := h.pushFront_spec p capacity
  rw [hnumber] at holdest
  have hnewer : (h.pushFront p capacity).newer = k + (h.pushFront p capacity).lengths.length := by
    rw [Raw.newer, holdest]
  have hnewer' : h.newer = k + 1 + h.lengths.length := by rw [Raw.newer, ← hk]
  have hbeg : (h.pushFront p capacity).atBeginning = true →
      (h.pushFront p capacity).oldest = 0 := by
    rw [hbeginning, hbegin, holdest]
    simp
  rcases Nat.eq_zero_or_pos lost with rfl | hlost'
  · have hsame : (h.pushFront p capacity).newer = h.newer := by omega
    refine ⟨stop, Nat.le_refl _, holdest ▸ hjoined, hsame ▸ hstarts, hsame ▸ hc.stops, ?_,
      hc.le_log, hbeg⟩
    rw [hsame, hpresent]
    simpa using hc.full
  · have hle : (h.pushFront p capacity).newer * size ≤ stop := by
      have hle : (h.pushFront p capacity).newer * size ≤ (h.newer - 1) * size :=
        Nat.mul_le_mul_right _ (by omega)
      omega
    refine ⟨(h.pushFront p capacity).newer * size, hle, ?_, ?_, Nat.le_refl _, fun _ => rfl,
      Nat.le_trans hle hc.le_log, hbeg⟩
    · have hend := Nat.le_of_eq (congrArg (· * size) hnewer.symm)
      rw [holdest, hjoined, logPages_take (hnewer ▸ hle), logPages_take hend]
    · exact Nat.mul_lt_mul_of_pos_right (by omega) hsize

end History

end Timeline
