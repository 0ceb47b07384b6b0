import Timeline.Json.Doc

/-!
# JSON trees

**Induction.** An array is taken with all its items at once, an object with all its members
(`induct`). What is said of a value is then said of a list of them by induction on the list.

**Depth.** The `Doc` of a value is taken for a value again if it is not nested too deeply.

**Order of keys.** What comes back has the members of every object in order of their keys, the
last of several with one key (`sorted`). A value whose keys are in strict order already comes back
as it is.

Main statements: `value?_toDoc` and `sorted_eq_self`.
-/

namespace Timeline

/-! ## Tables from pairs in order -/

namespace Table

variable {α : Type}

theorem place_of_forall_lt {key : String} (value : α) {pairs : List (String × α)}
    (h : ∀ p ∈ pairs, p.1 < key) : place key value pairs = pairs ++ [(key, value)] := by
  induction pairs with
  | nil => rfl
  | cons p rest ih =>
    obtain ⟨hp, hrest⟩ := List.forall_mem_cons.mp h
    have hne : key ≠ p.1 := fun e => String.lt_irrefl key (e ▸ hp)
    simp only [place, if_neg (String.lt_asymm hp), if_neg hne, ih hrest, List.cons_append]

theorem foldl_insert_of_pairwise {pairs : List (String × α)} (t : Table α)
    (h : (t.pairs ++ pairs).Pairwise fun p q => p.1 < q.1) :
    (pairs.foldl (fun t p => t.insert p.1 p.2) t).pairs = t.pairs ++ pairs := by
  induction pairs generalizing t with
  | nil => simp
  | cons p rest ih =>
    have hp : ∀ q ∈ t.pairs, q.1 < p.1 := fun q hq =>
      (List.pairwise_append.mp h).2.2 q hq p List.mem_cons_self
    have hinsert : (t.insert p.1 p.2).pairs = t.pairs ++ [p] := place_of_forall_lt p.2 hp
    rw [List.foldl_cons, ih _ (by simpa [hinsert] using h), hinsert]
    simp

/-- Pairs in strict order of their keys are a table as they are. -/
theorem pairs_ofList {pairs : List (String × α)} (h : pairs.Pairwise fun p q => p.1 < q.1) :
    (ofList pairs).pairs = pairs :=
  foldl_insert_of_pairwise empty h

end Table

namespace Json

/-! ## Induction -/

theorem induct {motive : Json → Prop} (null : motive .null) (bool : ∀ b, motive (.bool b))
    (number : ∀ n, motive (.number n)) (string : ∀ s, motive (.string s))
    (array : ∀ items, (∀ item ∈ items, motive item) → motive (.array items))
    (object : ∀ members, (∀ member ∈ members, motive member.2) → motive (.object members))
    (j : Json) : motive j :=
  @Json.rec motive (fun items => ∀ item ∈ items, motive item)
    (fun members => ∀ member ∈ members, motive member.2) (fun member => motive member.2)
    null bool number string array object
    (fun _ h => nomatch h) (fun _ _ head tail => List.forall_mem_cons.mpr ⟨head, tail⟩)
    (fun _ h => nomatch h) (fun _ _ head tail => List.forall_mem_cons.mpr ⟨head, tail⟩)
    (fun _ _ value => value) j

theorem memberDocs_eq_map (members : List (String × Json)) :
    memberDocs members = members.map fun m => (some m.1, m.2.toDoc) := by
  induction members with
  | nil => rfl
  | cons m rest ih => rw [memberDocs, ih, List.map_cons]

/-! ## What holds everywhere in a value -/

mutual

/-- The value and all values in it satisfy `p`. -/
def everywhere (p : Json → Bool) : Json → Bool
  | .array items => p (.array items) && itemsEverywhere p items
  | .object members => p (.object members) && membersEverywhere p members
  | j => p j

def itemsEverywhere (p : Json → Bool) : List Json → Bool
  | [] => true
  | item :: rest => everywhere p item && itemsEverywhere p rest

def membersEverywhere (p : Json → Bool) : List (String × Json) → Bool
  | [] => true
  | (_, value) :: rest => everywhere p value && membersEverywhere p rest

end

section

variable {p : Json → Bool}

theorem itemsEverywhere_iff {items : List Json} :
    itemsEverywhere p items ↔ ∀ item ∈ items, item.everywhere p := by
  induction items with
  | nil => simp [itemsEverywhere]
  | cons item rest ih => simp [itemsEverywhere, ih]

theorem membersEverywhere_iff {members : List (String × Json)} :
    membersEverywhere p members ↔ ∀ member ∈ members, member.2.everywhere p := by
  induction members with
  | nil => simp [membersEverywhere]
  | cons member rest ih => simp [membersEverywhere, ih]

@[simp] theorem everywhere_array {items : List Json} :
    (Json.array items).everywhere p ↔
      p (.array items) ∧ ∀ item ∈ items, item.everywhere p := by
  rw [everywhere, Bool.and_eq_true, itemsEverywhere_iff]

@[simp] theorem everywhere_object {members : List (String × Json)} :
    (Json.object members).everywhere p ↔
      p (.object members) ∧ ∀ member ∈ members, member.2.everywhere p := by
  rw [everywhere, Bool.and_eq_true, membersEverywhere_iff]

end

/-- An integer of 64 bits, with a sign or without. -/
def Number.isInteger : Number → Bool
  | .int z => decide (-(Nat.pow 2 63 : Nat) ≤ z) && decide (z < (Nat.pow 2 64 : Nat))
  | .double _ _ => false

theorem Number.isInteger_int {z : Int} :
    (Number.int z).isInteger ↔ -(Nat.pow 2 63 : Nat) ≤ z ∧ z < (Nat.pow 2 64 : Nat) := by
  rw [isInteger, Bool.and_eq_true, decide_eq_true_eq, decide_eq_true_eq]

/-- All numbers in the value are integers of 64 bits. -/
def isIntegral : Json → Bool :=
  everywhere fun
    | .number n => n.isInteger
    | _ => true

@[simp] theorem isIntegral_number (n : Number) : (Json.number n).isIntegral = n.isInteger := by
  simp [isIntegral, everywhere]

/-- The members of all objects in the value are in strict order of their keys. -/
def isSorted : Json → Bool :=
  everywhere fun
    | .object members => decide (members.Pairwise fun m n => m.1 < n.1)
    | _ => true

/-! ## Depth -/

mutual

/-- How many arrays and objects are nested in each other. -/
def depth : Json → Nat
  | .array items => itemsDepth items + 1
  | .object members => membersDepth members + 1
  | _ => 0

def itemsDepth : List Json → Nat
  | [] => 0
  | item :: rest => max item.depth (itemsDepth rest)

def membersDepth : List (String × Json) → Nat
  | [] => 0
  | (_, value) :: rest => max value.depth (membersDepth rest)

end

theorem itemsDepth_le_iff {items : List Json} {room : Nat} :
    itemsDepth items ≤ room ↔ ∀ item ∈ items, item.depth ≤ room := by
  induction items with
  | nil => simp [itemsDepth]
  | cons item rest ih => rw [itemsDepth, Nat.max_le, ih, List.forall_mem_cons]

theorem membersDepth_le_iff {members : List (String × Json)} {room : Nat} :
    membersDepth members ≤ room ↔ ∀ member ∈ members, member.2.depth ≤ room := by
  induction members with
  | nil => simp [membersDepth]
  | cons member rest ih => rw [membersDepth, Nat.max_le, ih, List.forall_mem_cons]

@[simp] theorem depth_array_le_succ_iff {items : List Json} {room : Nat} :
    (Json.array items).depth ≤ room + 1 ↔ ∀ item ∈ items, item.depth ≤ room := by
  rw [depth, Nat.add_le_add_iff_right, itemsDepth_le_iff]

@[simp] theorem depth_object_le_succ_iff {members : List (String × Json)} {room : Nat} :
    (Json.object members).depth ≤ room + 1 ↔ ∀ member ∈ members, member.2.depth ≤ room := by
  rw [depth, Nat.add_le_add_iff_right, membersDepth_le_iff]

/-! ## Order of keys -/

mutual

/-- The value with the members of all objects in order of their keys, each key once. -/
def sorted : Json → Json
  | .array items => .array (sortedItems items)
  | .object members => .object (Table.ofList (sortedMembers members)).pairs
  | j => j

def sortedItems : List Json → List Json
  | [] => []
  | item :: rest => item.sorted :: sortedItems rest

def sortedMembers : List (String × Json) → List (String × Json)
  | [] => []
  | (key, value) :: rest => (key, value.sorted) :: sortedMembers rest

end

theorem sortedItems_eq_self {items : List Json} (h : ∀ item ∈ items, item.sorted = item) :
    sortedItems items = items := by
  induction items with
  | nil => rfl
  | cons item rest ih =>
    obtain ⟨hitem, hrest⟩ := List.forall_mem_cons.mp h
    rw [sortedItems, hitem, ih hrest]

theorem sortedMembers_eq_self {members : List (String × Json)}
    (h : ∀ member ∈ members, member.2.sorted = member.2) : sortedMembers members = members := by
  induction members with
  | nil => rfl
  | cons member rest ih =>
    obtain ⟨hmember, hrest⟩ := List.forall_mem_cons.mp h
    rw [sortedMembers, hmember, ih hrest]

/-- **A value with its keys in order is left as it is.** -/
theorem sorted_eq_self (j : Json) : j.isSorted → j.sorted = j := by
  induction j using induct with
  | null => exact fun _ => rfl
  | bool b => exact fun _ => rfl
  | number n => exact fun _ => rfl
  | string s => exact fun _ => rfl
  | array items ih =>
    intro h
    rw [sorted, sortedItems_eq_self fun item hi => ih item hi ((everywhere_array.mp h).2 item hi)]
  | object members ih =>
    intro h
    obtain ⟨hkeys, hvalues⟩ := everywhere_object.mp h
    rw [sorted, sortedMembers_eq_self fun member hm => ih member hm (hvalues member hm),
      Table.pairs_ofList (of_decide_eq_true hkeys)]

/-! ## Values of `Doc`s -/

theorem itemValues?_itemDocs {room : Nat} {items : List Json}
    (h : ∀ item ∈ items, item.toDoc.value? room = some item.sorted) :
    Doc.itemValues? room (itemDocs items) = some (sortedItems items) := by
  induction items with
  | nil => rfl
  | cons item rest ih =>
    obtain ⟨hitem, hrest⟩ := List.forall_mem_cons.mp h
    simp [itemDocs, sortedItems, Doc.itemValues?, hitem, ih hrest]

theorem memberValues?_memberDocs {room : Nat} {members : List (String × Json)}
    (h : ∀ member ∈ members, member.2.toDoc.value? room = some member.2.sorted) :
    Doc.memberValues? room (memberDocs members) = some (sortedMembers members) := by
  induction members with
  | nil => rfl
  | cons member rest ih =>
    obtain ⟨hmember, hrest⟩ := List.forall_mem_cons.mp h
    simp [memberDocs, sortedMembers, Doc.memberValues?, hmember, ih hrest]

/-- **The `Doc` of a value that is not nested too deeply has the value, with its keys in
order.** -/
theorem value?_toDoc (j : Json) : ∀ {room : Nat}, j.depth ≤ room →
    j.toDoc.value? room = some j.sorted := by
  induction j using induct with
  | null => intro room _; simp [toDoc, Doc.value?, sorted]
  | bool b => intro room _; simp [toDoc, Doc.value?, sorted]
  | number n => intro room _; simp [toDoc, Doc.value?, sorted]
  | string s => intro room _; simp [toDoc, Doc.value?, sorted]
  | array items ih =>
    rintro (_ | room) h
    · simp [depth] at h
    · have hitems := itemValues?_itemDocs fun item hi =>
        ih item hi (depth_array_le_succ_iff.mp h item hi)
      simp [toDoc, Doc.value?, sorted, hitems]
  | object members ih =>
    rintro (_ | room) h
    · simp [depth] at h
    · have hmembers := memberValues?_memberDocs fun member hm =>
        ih member hm (depth_object_le_succ_iff.mp h member hm)
      simp [toDoc, Doc.value?, sorted, hmembers]

end Json

end Timeline
