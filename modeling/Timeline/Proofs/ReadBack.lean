import Timeline.Proofs.Trees
import Timeline.Json.Reader

/-!
# Texts that read back

**Strings.** Every character is split off as one piece, whether it was escaped or not, and the
pieces are joined to the string that was encoded (`exists_pieces`).

**Numerals.** The digits of an integer do not start with a zero, so all of them are scanned; they
end where no digit, point or mark of a power of ten follows. An integer of 64 bits is kept as one.

**Values.** A text is read from left to right, so what follows a value must be carried along:
after an item that is a comma or a bracket, which ends a numeral. The number of steps that reading
takes is at most the length of the text.

Main statement: `Doc.read_text`.
-/

namespace Timeline.Json

/-! ## Strings -/

namespace Quoted

theorem hexValue?_hexDigit {d : Nat} (h : d < 16) : hexValue? (hexDigit d) = some d := by
  revert d; decide

/-- The four digits of a control character give its number. -/
theorem unit?_hexDigit {n : Nat} (h : n < 32) :
    unit? '0' '0' (hexDigit (n / 16)) (hexDigit (n % 16)) = some n := by
  have hhigh := hexValue?_hexDigit (d := n / 16) (by omega)
  have hlow := hexValue?_hexDigit (d := n % 16) (by omega)
  have hzero : hexValue? '0' = some 0 := rfl
  simp only [unit?, hzero, hhigh, hlow, Option.bind_eq_bind, Option.bind_some, Option.pure_def]
  congr 1
  omega

/-- A control character is no surrogate, whatever follows it. -/
theorem join?_unit {n : Nat} (h : n < 32) (ps : List Piece) :
    join? (.unit n :: ps) = (join? ps).map (Char.ofNat n :: ·) := by
  have hhigh : isHigh n = false := by simp [isHigh]; omega
  have hlow : isLow n = false := by simp [isLow]; omega
  rcases ps with _ | ⟨_ | _, _⟩ <;> simp [join?, hhigh, hlow]

section

variable {rest tail : List Char} {ps : List Piece}

theorem pieces?_letter {c d : Char} (hd : letterEscape? c = some d)
    (h : pieces? rest = some (ps, tail)) :
    pieces? ('\\' :: c :: rest) = some (.char d :: ps, tail) := by
  have hu : c ≠ 'u' := by rintro rfl; cases hd
  rw [pieces?.eq_4 c rest fun _ _ _ _ _ hc => absurd hc hu]
  simp [hd, h]

theorem pieces?_char {c : Char} (hquote : c ≠ '"') (hbackslash : c ≠ '\\') (hc : ¬ c < ' ')
    (h : pieces? rest = some (ps, tail)) : pieces? (c :: rest) = some (.char c :: ps, tail) := by
  rw [pieces?.eq_5 c rest hquote (fun _ _ _ _ _ e => absurd e hbackslash)
    fun _ _ e => absurd e hbackslash, if_neg hc]
  simp [h]

/-- An escaped character is split off as one piece, and that is joined as the character again. -/
theorem exists_piece (c : Char) :
    ∃ p, (∀ {rest tail ps}, pieces? rest = some (ps, tail) →
        pieces? (escape c ++ rest) = some (p :: ps, tail)) ∧
      ∀ ps, join? (p :: ps) = (join? ps).map (c :: ·) := by
  unfold escape
  split
  case h_8 hquote hbackslash _ _ _ _ _ =>
    split
    · next hc =>
      have hn : c.toNat < 32 := hc
      refine ⟨.unit c.toNat, fun h => ?_, fun ps => ?_⟩
      · simp [pieces?, unit?_hexDigit hn, h]
      · rw [join?_unit hn, Char.ofNat_toNat]
    · next hc => exact ⟨.char c, pieces?_char hquote hbackslash hc, fun _ => rfl⟩
  all_goals exact ⟨.char _, pieces?_letter rfl, fun _ => rfl⟩

end

/-- **An encoded string reads back.** -/
theorem exists_pieces (cs rest : List Char) :
    ∃ ps, pieces? (encode cs ++ '"' :: rest) = some (ps, rest) ∧ join? ps = some cs := by
  induction cs with
  | nil => exact ⟨[], rfl, rfl⟩
  | cons c cs ih =>
    obtain ⟨ps, hps, hcs⟩ := ih
    obtain ⟨p, hsplit, hjoin⟩ := exists_piece c
    refine ⟨p :: ps, ?_, by rw [hjoin, hcs]; rfl⟩
    rw [encode, List.flatMap_cons, List.append_assoc]
    exact hsplit hps

end Quoted

theorem quoted_append (s : String) (rest : List Char) :
    quoted s ++ rest = '"' :: (Quoted.encode s.toList ++ '"' :: rest) := by
  simp [quoted]

theorem readString?_encode (s : String) (rest : List Char) :
    Doc.readString? (Quoted.encode s.toList ++ '"' :: rest) = some (some s, rest) := by
  obtain ⟨ps, hps, hs⟩ := Quoted.exists_pieces s.toList rest
  simp [Doc.readString?, hps, hs]

/-! ## Numerals -/

namespace Numeral

/-- A numeral goes no further: no digit, point or mark of a power of ten follows. -/
def EndsAt (rest : List Char) : Prop :=
  ∀ c ∈ rest.head?, c.isDigit = false ∧ c ≠ '.' ∧ c ≠ 'e' ∧ c ≠ 'E'

theorem head?_toDigits_ne (n : Nat) : 0 < n → (Nat.toDigits 10 n).head? ≠ some '0' := by
  induction n using Nat.strongRecOn with
  | ind n ih =>
    intro hn
    by_cases hlt : n < 10
    · have hchar : ∀ d < 10, 0 < d → Nat.digitChar d ≠ '0' := by decide
      rw [Nat.toDigits_of_lt_base hlt]
      simpa using hchar n hlt hn
    · have hhead := ih (n / 10) (by omega) (by omega)
      rw [Nat.toDigits_of_base_le (by decide) (by omega), List.head?_append]
      cases hdigits : (Nat.toDigits 10 (n / 10)).head? with
      | none => exact absurd (List.head?_eq_none_iff.mp hdigits) Nat.toDigits_ne_nil
      | some c => simpa [hdigits] using hhead

/-- Digits do not start with a zero, unless it is the only one. -/
theorem length_toDigits_of_head? {n : Nat} (h : (Nat.toDigits 10 n).head? = some '0') :
    (Nat.toDigits 10 n).length = 1 := by
  rcases Nat.eq_zero_or_pos n with rfl | hn
  · rw [Nat.toDigits_zero]; rfl
  · exact absurd h (head?_toDigits_ne n hn)

theorem exists_toDigits_eq_cons (n : Nat) : ∃ c cs, Nat.toDigits 10 n = c :: cs ∧ c.isDigit := by
  obtain ⟨c, cs, h⟩ := List.exists_cons_of_ne_nil (Nat.toDigits_ne_nil (n := n) (b := 10))
  exact ⟨c, cs, h, Nat.isDigit_of_mem_toDigits (by decide) (by decide) (h ▸ List.mem_cons_self)⟩

theorem sign_integer (z : Int) (rest : List Char) :
    sign (DecimalStyle.integer z ++ rest) =
      (decide (z < 0), Nat.toDigits 10 z.natAbs ++ rest) := by
  unfold DecimalStyle.integer
  by_cases hz : z < 0
  · simp [hz, sign]
  · obtain ⟨c, cs, hcons, hc⟩ := exists_toDigits_eq_cons z.natAbs
    have hne : c ≠ '-' := by rintro rfl; cases hc
    simp [hz, hcons, sign, hne]

section

variable {rest : List Char} (hrest : EndsAt rest)

include hrest

theorem digits?_toDigits (n : Nat) :
    digits? (Nat.toDigits 10 n ++ rest) = some (Nat.toDigits 10 n, rest) := by
  have hdigits : ∀ c ∈ Nat.toDigits 10 n, c.isDigit = true := fun _ =>
    Nat.isDigit_of_mem_toDigits (by decide) (by decide)
  have hnone : rest.takeWhile Char.isDigit = [] ∧ rest.dropWhile Char.isDigit = rest := by
    cases rest with
    | nil => exact ⟨rfl, rfl⟩
    | cons c rest => simp [(hrest c rfl).1]
  simp only [digits?, List.takeWhile_append_of_pos hdigits, List.dropWhile_append_of_pos hdigits,
    hnone.1, hnone.2, List.append_nil]
  rw [if_neg (by simp [Nat.toDigits_ne_nil])]

theorem fraction?_of_endsAt : fraction? rest = some (none, rest) := by
  unfold fraction?
  split
  · exact absurd rfl (hrest _ rfl).2.1
  · rfl

theorem power?_of_endsAt : power? rest = some (none, rest) := by
  unfold power?
  split
  · rfl
  · next c rest =>
    obtain ⟨-, -, he, hE⟩ := hrest c rfl
    rw [if_neg (by simp [he, hE])]

/-- A written integer is scanned up to its end. -/
theorem scan_integer (z : Int) :
    scan (DecimalStyle.integer z ++ rest) =
      some (⟨decide (z < 0), Nat.toDigits 10 z.natAbs, none, none⟩, rest) := by
  have hzero : ¬ ((Nat.toDigits 10 z.natAbs).head? = some '0' ∧
      (Nat.toDigits 10 z.natAbs).length ≠ 1) := fun h => h.2 (length_toDigits_of_head? h.1)
  simp [scan, sign_integer, digits?_toDigits hrest, if_neg hzero, fraction?_of_endsAt hrest,
    power?_of_endsAt hrest]

end

/-- An integer of 64 bits is kept as one. -/
theorem number?_integer {z : Int} (h : Number.isInteger (.int z)) :
    number? ⟨decide (z < 0), Nat.toDigits 10 z.natAbs, none, none⟩ = some (.int z) := by
  rw [Number.isInteger_int] at h
  have hvalue : naturalValue (Nat.toDigits 10 z.natAbs) = z.natAbs := Nat.ofDigitChars_ten_toDigits
  have hinteger : integer? ⟨decide (z < 0), Nat.toDigits 10 z.natAbs, none, none⟩ = some z := by
    simp only [integer?, hvalue, Option.isNone_none, Bool.and_self, if_true, decide_eq_true_eq]
    split
    · rw [if_neg (by omega)]
      congr 1; omega
    · rw [if_pos (by omega)]
      congr 1; omega
  simp [number?, hinteger]

end Numeral

/-! ## Values -/

theorem skipBlanks_cons {c : Char} (h : isBlank c = false) (cs : List Char) :
    skipBlanks (c :: cs) = c :: cs :=
  List.dropWhile_cons_of_neg (by simp [h])

namespace Doc

/-- The text of a value is read up to its end, as the `Doc` of the value. -/
def ReadsBack (j : Json) : Prop :=
  ∀ steps tail, j.render.length ≤ steps → Numeral.EndsAt tail →
    readValue steps (j.render ++ tail) = (j.toDoc, some tail)

theorem isBlank_of_isDigit {c : Char} (h : c.isDigit ∨ c = '-') : isBlank c = false := by
  rw [Bool.eq_false_iff]
  intro hblank
  simp only [isBlank, Bool.or_eq_true, beq_iff_eq] at hblank
  rcases hblank with ((rfl | rfl) | rfl) | rfl <;> exact absurd h (by decide)

/-- What starts like a numeral is read as one. -/
theorem readValue_of_isDigit {c : Char} (h : c.isDigit ∨ c = '-') (steps : Nat) (cs : List Char) :
    readValue (steps + 1) (c :: cs) = readNumber (c :: cs) := by
  rw [readValue, skipBlanks_cons (isBlank_of_isDigit h)]
  split
  case h_1 heq => cases heq
  case h_8 heq => rfl
  all_goals
    next heq =>
    cases heq
    exact absurd h (by decide)

theorem exists_integer_eq_cons (z : Int) :
    ∃ c cs, DecimalStyle.integer z = c :: cs ∧ (c.isDigit ∨ c = '-') := by
  unfold DecimalStyle.integer
  split
  · exact ⟨_, _, rfl, .inr rfl⟩
  · obtain ⟨c, cs, h, hc⟩ := Numeral.exists_toDigits_eq_cons z.natAbs
    exact ⟨c, cs, h, .inl hc⟩

theorem readsBack_integer {z : Int} (h : Number.isInteger (.int z)) :
    ReadsBack (.number (.int z)) := by
  intro steps tail hsteps htail
  obtain ⟨c, cs, hcons, hc⟩ := exists_integer_eq_cons z
  rw [render, Number.render, hcons, List.length_cons] at hsteps
  obtain ⟨steps, rfl⟩ := Nat.exists_eq_add_of_le' hsteps
  rw [render, Number.render, hcons, List.cons_append, ← Nat.add_assoc, readValue_of_isDigit hc,
    ← List.cons_append, ← hcons, readNumber, Numeral.scan_integer htail]
  simp [Numeral.number?_integer h, toDoc]

/-- An integral value starts with a character that is neither a blank nor a closing bracket. -/
theorem exists_render_eq_cons {j : Json} (h : j.isIntegral) :
    ∃ c cs, j.render = c :: cs ∧ isBlank c = false ∧ c ≠ ']' := by
  cases j with
  | null => exact ⟨_, _, rfl, rfl, by decide⟩
  | bool b => cases b <;> exact ⟨_, _, rfl, rfl, by decide⟩
  | number n =>
    cases n with
    | int z =>
      obtain ⟨c, cs, hcons, hc⟩ := exists_integer_eq_cons z
      refine ⟨c, cs, hcons, isBlank_of_isDigit hc, ?_⟩
      rintro rfl
      exact absurd hc (by decide)
    | double negative magnitude => cases h
  | string s => exact ⟨_, _, rfl, rfl, by decide⟩
  | array items => cases items <;> exact ⟨_, _, rfl, rfl, by decide⟩
  | object members =>
    cases members with
    | nil => exact ⟨_, _, rfl, rfl, by decide⟩
    | cons member rest => exact ⟨_, _, rfl, rfl, by decide⟩

/-! ### Items and members -/

section

variable {steps : Nat} {item : Doc} {items : List Doc} {key : String}
  {members : List (Option String × Doc)} {cs rest tail : List Char}

theorem readItems_last (h : readValue steps cs = (item, some (']' :: tail))) :
    readItems (steps + 1) cs = ([item], some tail) := by
  rw [readItems, h]
  rfl

theorem readItems_next (h : readValue steps cs = (item, some (',' :: rest)))
    (hrest : readItems steps rest = (items, some tail)) :
    readItems (steps + 1) cs = (item :: items, some tail) := by
  rw [readItems, h]
  simp only [skipBlanks_cons (c := ',') rfl, hrest]

theorem readMembers_last (h : readValue steps cs = (item, some ('\x7d' :: tail))) :
    readMembers (steps + 1) (quoted key ++ ':' :: cs) = ([(some key, item)], some tail) := by
  simp only [quoted_append, readMembers, skipBlanks_cons (c := '"') rfl, readString?_encode,
    skipBlanks_cons (c := ':') rfl, h, skipBlanks_cons (c := '\x7d') rfl]

theorem readMembers_next (h : readValue steps cs = (item, some (',' :: rest)))
    (hrest : readMembers steps rest = (members, some tail)) :
    readMembers (steps + 1) (quoted key ++ ':' :: cs) =
      ((some key, item) :: members, some tail) := by
  simp only [quoted_append, readMembers, skipBlanks_cons (c := '"') rfl, readString?_encode,
    skipBlanks_cons (c := ':') rfl, h, skipBlanks_cons (c := ',') rfl, hrest]

theorem readValue_items {c : Char} (hblank : isBlank c = false) (hne : c ≠ ']')
    (h : readItems steps (c :: cs) = (items, some tail)) :
    readValue (steps + 1) ('[' :: c :: cs) = (.array items true, some tail) := by
  simp only [readValue, skipBlanks_cons (c := '[') rfl, skipBlanks_cons hblank]
  split
  · next heq => exact absurd (List.cons.inj heq).1 hne
  · rw [h]
    rfl

theorem readValue_members (h : readMembers steps (quoted key ++ cs) = (members, some tail)) :
    readValue (steps + 1) ('\x7b' :: (quoted key ++ cs)) = (.object members true, some tail) := by
  rw [quoted_append] at *
  simp only [readValue, skipBlanks_cons (c := '\x7b') rfl, skipBlanks_cons (c := '"') rfl]
  split
  · next heq => exact absurd (List.cons.inj heq).1 (by decide)
  · rw [h]
    rfl

end

theorem readItems_render {items : List Json} (tail : List Char) : ∀ (item : Json) (steps : Nat),
    (∀ j ∈ item :: items, ReadsBack j) → (item.render ++ renderItems items).length ≤ steps →
    readItems steps (item.render ++ (renderItems items ++ tail)) =
      (itemDocs (item :: items), some tail) := by
  induction items with
  | nil =>
    intro item steps h hsteps
    simp only [renderItems, List.length_append, List.length_cons, List.length_nil] at hsteps
    obtain ⟨steps, rfl⟩ := Nat.exists_eq_add_of_le' (Nat.le_of_add_left_le hsteps)
    have hitem := h item List.mem_cons_self
    exact readItems_last (hitem steps (']' :: tail) (by omega) (by simp [Numeral.EndsAt]))
  | cons next rest ih =>
    intro item steps h hsteps
    obtain ⟨hitem, hrest⟩ := List.forall_mem_cons.mp h
    simp only [renderItems, List.length_append, List.length_cons] at hsteps
    obtain ⟨steps, rfl⟩ := Nat.exists_eq_add_of_le' (show 1 ≤ steps by omega)
    have hread := hitem steps (',' :: (next.render ++ (renderItems rest ++ tail))) (by omega)
      (by simp [Numeral.EndsAt])
    have hitems := ih next steps hrest (by simp; omega)
    rw [renderItems, List.cons_append, List.append_assoc]
    exact readItems_next hread hitems

theorem readMembers_render {members : List (String × Json)} (tail : List Char) :
    ∀ (key : String) (value : Json) (steps : Nat),
    (∀ m ∈ (key, value) :: members, ReadsBack m.2) →
    (value.render ++ renderMembers members).length < steps →
    readMembers steps (quoted key ++ ':' :: (value.render ++ (renderMembers members ++ tail))) =
      (memberDocs ((key, value) :: members), some tail) := by
  induction members with
  | nil =>
    intro key value steps h hsteps
    simp only [renderMembers, List.length_append, List.length_cons, List.length_nil] at hsteps
    obtain ⟨steps, rfl⟩ := Nat.exists_eq_add_of_le' (show 1 ≤ steps by omega)
    have hvalue : ReadsBack value := h (key, value) List.mem_cons_self
    exact readMembers_last (hvalue steps ('\x7d' :: tail) (by omega) (by simp [Numeral.EndsAt]))
  | cons next rest ih =>
    intro key value steps h hsteps
    have hvalue : ReadsBack value := h (key, value) List.mem_cons_self
    have hrest := (List.forall_mem_cons.mp h).2
    simp only [renderMembers, List.length_append, List.length_cons] at hsteps
    obtain ⟨steps, rfl⟩ := Nat.exists_eq_add_of_le' (show 1 ≤ steps by omega)
    have hread := hvalue steps
      (',' :: (quoted next.1 ++ ':' :: (next.2.render ++ (renderMembers rest ++ tail)))) (by omega)
      (by simp [Numeral.EndsAt])
    have hmembers := ih next.1 next.2 steps hrest (by simp; omega)
    rw [renderMembers]
    simp only [List.cons_append, List.append_assoc]
    exact readMembers_next hread hmembers

/-! ### Whole values -/

theorem readsBack_string (s : String) : ReadsBack (.string s) := by
  intro steps tail hsteps _
  simp only [render, quoted, List.cons_append, List.length_cons] at hsteps
  obtain ⟨steps, rfl⟩ := Nat.exists_eq_add_of_le' (show 1 ≤ steps by omega)
  simp only [render, quoted_append, readValue, skipBlanks_cons (c := '"') rfl,
    readString?_encode, toDoc]

theorem readsBack_array {items : List Json} (hitems : ∀ item ∈ items, item.isIntegral)
    (h : ∀ item ∈ items, ReadsBack item) : ReadsBack (.array items) := by
  intro steps tail hsteps _
  cases items with
  | nil =>
    have hpos : 1 ≤ steps := Nat.le_of_add_left_le hsteps
    obtain ⟨steps, rfl⟩ := Nat.exists_eq_add_of_le' hpos
    rfl
  | cons item rest =>
    rw [render, List.length_cons] at hsteps
    obtain ⟨steps, rfl⟩ := Nat.exists_eq_add_of_le' (show 1 ≤ steps by omega)
    have hread := readItems_render tail item steps h (Nat.le_of_add_le_add_right hsteps)
    -- The first item is no closing bracket, so the array is not taken for an empty one.
    obtain ⟨c, cs, hcons, hblank, hne⟩ :=
      exists_render_eq_cons (hitems item List.mem_cons_self)
    rw [hcons, List.cons_append] at hread
    rw [render, List.cons_append, List.append_assoc, hcons, List.cons_append]
    exact readValue_items hblank hne hread

theorem readsBack_object {members : List (String × Json)} (h : ∀ m ∈ members, ReadsBack m.2) :
    ReadsBack (.object members) := by
  intro steps tail hsteps _
  cases members with
  | nil =>
    have hpos : 1 ≤ steps := Nat.le_of_add_left_le hsteps
    obtain ⟨steps, rfl⟩ := Nat.exists_eq_add_of_le' hpos
    rfl
  | cons member rest =>
    obtain ⟨key, value⟩ := member
    simp only [render, quoted, List.length_cons, List.length_append] at hsteps
    obtain ⟨steps, rfl⟩ := Nat.exists_eq_add_of_le' (show 1 ≤ steps by omega)
    have hread := readMembers_render tail key value steps h (by simp; omega)
    rw [render]
    simp only [List.cons_append, List.append_assoc]
    exact readValue_members hread

theorem readsBack_of_isIntegral (j : Json) : j.isIntegral → ReadsBack j := by
  induction j using induct with
  | null =>
    intro _ steps tail hsteps _
    obtain ⟨steps, rfl⟩ := Nat.exists_eq_add_of_le' hsteps
    rfl
  | bool b =>
    intro _ steps tail hsteps _
    cases b <;> obtain ⟨steps, rfl⟩ := Nat.exists_eq_add_of_le' hsteps <;> rfl
  | number n =>
    intro h
    cases n with
    | int z => exact readsBack_integer h
    | double negative magnitude => cases h
  | string s => exact fun _ => readsBack_string s
  | array items ih =>
    intro h
    have hitems := (everywhere_array.mp h).2
    exact readsBack_array hitems fun item hi => ih item hi (hitems item hi)
  | object members ih =>
    intro h
    exact readsBack_object fun m hm => ih m hm ((everywhere_object.mp h).2 m hm)

/-- **The text of an integral value is read as the value.** -/
theorem read_text {j : Json} (h : j.isIntegral) : Doc.read j.text = (j.toDoc, true) := by
  have hread := readsBack_of_isIntegral j h (2 * j.render.length + 1) [] (by omega)
    (by simp [Numeral.EndsAt])
  rw [List.append_nil] at hread
  simp only [Doc.read, text, String.toList_ofList, hread]
  rfl

end Doc

end Timeline.Json
