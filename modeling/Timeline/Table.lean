/-!
# Tables keyed by text

A table is a list of pairs in strict order of key, so each key stands in it once. Keys are compared
by code point, which is also the order of their UTF-8 bytes. Writing a key that is present replaces
its value, so the table that a list of pairs builds holds the last value of each key.

Main statements: `get?_eq_some_iff`, the look-ups tell which pairs there are; `get?_insert_self`,
`get?_insert_of_ne`, `get?_erase_self` and `get?_erase_of_ne`, what each write does to every
look-up.
-/

namespace Timeline

/-- Pairs in strict order of key. -/
structure Table (α : Type) where
  pairs : List (String × α)
  sorted : pairs.Pairwise fun p q => p.1 < q.1
  deriving DecidableEq, Repr

namespace Table

variable {α : Type}

def empty : Table α := ⟨[], .nil⟩

instance : Inhabited (Table α) := ⟨empty⟩

/-- Put a pair in its place, over the one that had the same key. -/
def place (key : String) (value : α) : List (String × α) → List (String × α)
  | [] => [(key, value)]
  | (k, v) :: rest =>
    if key < k then (key, value) :: (k, v) :: rest
    else if key = k then (key, value) :: rest
    else (k, v) :: place key value rest

theorem eq_or_mem_of_mem_place {key : String} {value : α} {pairs : List (String × α)}
    {p : String × α} (h : p ∈ place key value pairs) : p = (key, value) ∨ p ∈ pairs := by
  induction pairs with
  | nil => exact .inl (List.mem_singleton.1 h)
  | cons q rest ih =>
    unfold place at h
    split at h
    · exact List.mem_cons.1 h
    · split at h
      · exact (List.mem_cons.1 h).imp_right (List.mem_cons_of_mem _)
      · obtain rfl | h := List.mem_cons.1 h
        · exact .inr List.mem_cons_self
        · exact (ih h).imp_right (List.mem_cons_of_mem _)

theorem sorted_place (key : String) (value : α) {pairs : List (String × α)}
    (h : pairs.Pairwise fun p q => p.1 < q.1) :
    (place key value pairs).Pairwise fun p q => p.1 < q.1 := by
  induction pairs with
  | nil => exact List.pairwise_singleton _ _
  | cons p rest ih =>
    obtain ⟨hp, hrest⟩ := List.pairwise_cons.1 h
    unfold place
    split
    · next hlt =>
      refine .cons ?_ h
      intro q hq
      obtain rfl | hq := List.mem_cons.1 hq
      · exact hlt
      · exact String.lt_trans hlt (hp q hq)
    · next hnot =>
      split
      · next heq => exact .cons (fun q hq => heq ▸ hp q hq) hrest
      · next hne =>
        have hlt : p.1 < key := Std.lt_of_le_of_ne (String.not_lt.1 hnot) (Ne.symm hne)
        refine .cons ?_ (ih hrest)
        intro q hq
        obtain rfl | hq := eq_or_mem_of_mem_place hq
        · exact hlt
        · exact hp q hq

def insert (t : Table α) (key : String) (value : α) : Table α :=
  ⟨place key value t.pairs, sorted_place key value t.sorted⟩

def erase (t : Table α) (key : String) : Table α :=
  ⟨t.pairs.filter fun p => p.1 != key, t.sorted.filter _⟩

def get? (t : Table α) (key : String) : Option α :=
  (t.pairs.find? fun p => p.1 == key).map Prod.snd

def contains (t : Table α) (key : String) : Bool := (t.get? key).isSome

/-- The last of several pairs with one key stays. -/
def ofList (pairs : List (String × α)) : Table α :=
  pairs.foldl (fun t p => t.insert p.1 p.2) empty

def keys (t : Table α) : List String := t.pairs.map Prod.fst

def size (t : Table α) : Nat := t.pairs.length

theorem mem_keys_iff {t : Table α} {key : String} : key ∈ t.keys ↔ (t.get? key).isSome = true := by
  simp [keys, get?]

/-- Each key stands in the table once. -/
theorem get?_eq_some_iff {t : Table α} {key : String} {value : α} :
    t.get? key = some value ↔ (key, value) ∈ t.pairs := by
  obtain ⟨pairs, hsorted⟩ := t
  unfold get?
  induction hsorted with
  | nil => simp
  | @cons p rest hp hrest ih =>
    by_cases hkey : p.1 = key
    · have hnot : (key, value) ∉ rest := by
        intro hmem
        have hlt : p.1 < key := hp (key, value) hmem
        rw [hkey] at hlt
        exact String.lt_irrefl key hlt
      obtain ⟨k, v⟩ := p
      obtain rfl : k = key := hkey
      simp [hnot, eq_comm]
    · have hne : (key, value) ≠ p := fun heq => hkey (congrArg Prod.fst heq.symm)
      rw [List.find?_cons_of_neg (by simpa using hkey), ih]
      simp [hne]

/-! ## Look-ups after a write -/

@[simp] theorem get?_empty (key : String) : (empty : Table α).get? key = none := rfl

theorem find?_place_self (key : String) (value : α) (pairs : List (String × α)) :
    (place key value pairs).find? (fun p => p.1 == key) = some (key, value) := by
  induction pairs with
  | nil => simp [place]
  | cons p rest ih =>
    obtain ⟨k, v⟩ := p
    unfold place
    split
    · simp
    · split
      · simp
      · next hne => simp [ih, Ne.symm hne]

theorem find?_place_of_ne {key other : String} (h : other ≠ key) (value : α)
    (pairs : List (String × α)) :
    (place key value pairs).find? (fun p => p.1 == other) =
      pairs.find? fun p => p.1 == other := by
  induction pairs with
  | nil => simp [place, Ne.symm h]
  | cons p rest ih =>
    obtain ⟨k, v⟩ := p
    unfold place
    split
    · simp [List.find?_cons, Ne.symm h]
    · split
      · next heq => simp [← heq, Ne.symm h]
      · simp [List.find?_cons, ih]

@[simp] theorem get?_insert_self (t : Table α) (key : String) (value : α) :
    (t.insert key value).get? key = some value := by
  simp [get?, insert, find?_place_self]

theorem get?_insert_of_ne (t : Table α) {key other : String} (h : other ≠ key) (value : α) :
    (t.insert key value).get? other = t.get? other := by
  simp [get?, insert, find?_place_of_ne h]

@[simp] theorem get?_erase_self (t : Table α) (key : String) : (t.erase key).get? key = none := by
  simp [get?, erase, List.find?_filter]

theorem get?_erase_of_ne (t : Table α) {key other : String} (h : other ≠ key) :
    (t.erase key).get? other = t.get? other := by
  obtain ⟨pairs, hsorted⟩ := t
  simp only [get?, erase]
  clear hsorted
  induction pairs with
  | nil => rfl
  | cons p rest ih =>
    by_cases hp : p.1 = key
    · simpa [List.filter_cons, List.find?_cons, hp, Ne.symm h] using ih
    · simp only [List.find?_cons]
      cases ho : p.1 == other <;> simp_all

end Table

end Timeline
