import Timeline.Proofs.Records

/-!
# Forms of a record

A value may be written in other ways than the one in which it is encoded. Whatever may stand for
it is a form of it.

**Objects.** The members for the fields of a record may stand in any order, each of them under any
name of its field and with any form of its value. A field may be left out if it has its value then.
Members with other names may stand anywhere among them (`Layout.IsForm`).

**Arrays.** The items are forms of the values in the order of the fields. The last ones may be
left out if their fields have their values then.

**Soundness.** Forms are sound if whatever stands for a value is read as that value in every room
in which it fits (`Forms.Sound`). No two fields of a record answer to one name, so each field
finds its own member wherever that stands; this is what `Row.GivenBy` asks for.

Main statement: `Layout.sound_isForm`.
-/

namespace Timeline

open Json (Doc memberDocs itemDocs)

/-- What may stand for the values of a type. -/
abbrev Forms (α : Type) := α → Json → Prop

/-- Every form of a value is read as the value in every room in which it fits. -/
def Forms.Sound {α : Type} [Wire α] (forms : Forms α) : Prop :=
  ∀ {x : α} {j : Json} {room : Nat}, forms x j → j.depth ≤ room → Wire.decode room j.toDoc = .ok x

/-- What may stand for the value of each field. -/
@[reducible]
def FieldForms : List Field → Type
  | [] => Unit
  | f :: fields => Forms f.type × FieldForms fields

def FieldForms.Sound : (fields : List Field) → FieldForms fields → Prop
  | [], _ => True
  | f :: fields, (form, forms) => @Forms.Sound f.type f.wire form ∧ FieldForms.Sound fields forms

namespace Field

/-- No field answers to the name. -/
def Unknown (fields : List Field) (key : String) : Prop := ∀ f ∈ fields, f.answersTo key = false

/-- No name is one of two fields. -/
def Apart (fields : List Field) : Prop :=
  fields.Pairwise fun f g => ∀ key, g.answersTo key → f.answersTo key = false

end Field

/-! ## What stands for a row -/

namespace Row

/-- The members stand for the fields in order. A field that has its value where it is left out may
be left out. -/
inductive HasMembers : (fields : List Field) → FieldForms fields → Row fields →
    List (String × Json) → Prop
  | nil : HasMembers [] () () []
  | leftOut {f : Field} {fields : List Field} {form : Forms f.type} {forms : FieldForms fields}
      {x : f.type} {row : Row fields} {own : List (String × Json)} (hx : f.absent = some x)
      (hrest : HasMembers fields forms row own) :
      HasMembers (f :: fields) (form, forms) (x, row) own
  | cons {f : Field} {fields : List Field} {form : Forms f.type} {forms : FieldForms fields}
      {x : f.type} {row : Row fields} {own : List (String × Json)} {key : String} {j : Json}
      (hkey : f.answersTo key) (hj : form x j) (hrest : HasMembers fields forms row own) :
      HasMembers (f :: fields) (form, forms) (x, row) ((key, j) :: own)

/-- The items stand for the fields in order. The last fields may be left out if they have their
values then. -/
inductive HasItems : (fields : List Field) → FieldForms fields → Row fields → List Json → Prop
  | nil : HasItems [] () () []
  | leftOut {f : Field} {fields : List Field} {form : Forms f.type} {forms : FieldForms fields}
      {x : f.type} {row : Row fields} (hx : f.absent = some x)
      (hrest : HasItems fields forms row []) : HasItems (f :: fields) (form, forms) (x, row) []
  | cons {f : Field} {fields : List Field} {form : Forms f.type} {forms : FieldForms fields}
      {x : f.type} {row : Row fields} {items : List Json} {j : Json} (hj : form x j)
      (hrest : HasItems fields forms row items) :
      HasItems (f :: fields) (form, forms) (x, row) (j :: items)

end Row

/-- What may stand for a record: an object with the members for its fields in any order and with
others among them that no field answers to, or an array of its fields in order. -/
inductive Layout.IsForm {α : Type} (l : Layout α) (forms : FieldForms l.fields) (x : α) :
    Json → Prop
  | object {own others members : List (String × Json)}
      (hown : Row.HasMembers l.fields forms (l.toRow x) own)
      (hothers : ∀ m ∈ others, Field.Unknown l.fields m.1)
      (hmembers : members.Perm (own ++ others)) : IsForm l forms x (.object members)
  | array {items : List Json} (hitems : Row.HasItems l.fields forms (l.toRow x) items) :
      IsForm l forms x (.array items)

/-! ## Reading the members -/

/-- In a list of those that satisfy `p` and those that do not, in any order, either can be found
by `p`. -/
theorem perm_filter_of_perm_append {α : Type} (p : α → Bool) (mine : List α) {l rest : List α}
    (h : l.Perm (mine ++ rest)) (hmine : ∀ a ∈ mine, p a) (hrest : ∀ a ∈ rest, p a = false) :
    (l.filter p).Perm mine ∧ (l.filter fun a => !p a).Perm rest := by
  have hkept : (mine ++ rest).filter p = mine := by
    rw [List.filter_append, List.filter_eq_self.mpr hmine,
      List.filter_eq_nil_iff.mpr fun a ha => by simp [hrest a ha], List.append_nil]
  have hdropped : (mine ++ rest).filter (fun a => !p a) = rest := by
    rw [List.filter_append, List.filter_eq_nil_iff.mpr fun a ha => by simp [hmine a ha],
      List.filter_eq_self.mpr fun a ha => by simp [hrest a ha], List.nil_append]
  exact ⟨hkept ▸ h.filter p, hdropped ▸ h.filter fun a => !p a⟩

theorem Field.filter_owns_memberDocs (f : Field) (members : List (String × Json)) :
    (memberDocs members).filter f.owns =
      memberDocs (members.filter fun m => f.answersTo m.1) := by
  rw [Json.memberDocs_eq_map, Json.memberDocs_eq_map, List.filter_map]
  rfl

theorem Field.filter_not_owns_memberDocs (f : Field) (members : List (String × Json)) :
    (memberDocs members).filter (fun m => !f.owns m) =
      memberDocs (members.filter fun m => !f.answersTo m.1) := by
  rw [Json.memberDocs_eq_map, Json.memberDocs_eq_map, List.filter_map]
  rfl

theorem Json.isWhole_toDoc (j : Json) : j.toDoc.isWhole := by cases j <;> rfl

namespace Row

section

variable {fields : List Field} {forms : FieldForms fields} {row : Row fields}
  {own others members : List (String × Json)} {room : Nat}

theorem HasMembers.exists_field (h : HasMembers fields forms row own) {m : String × Json}
    (hm : m ∈ own) : ∃ f ∈ fields, f.answersTo m.1 := by
  induction h with
  | nil => exact nomatch hm
  | leftOut _ _ ih =>
    obtain ⟨g, hg, hkey⟩ := ih hm
    exact ⟨g, List.mem_cons_of_mem _ hg, hkey⟩
  | @cons f _ _ _ _ _ _ _ _ hkey _ _ ih =>
    rcases List.mem_cons.mp hm with rfl | hm
    · exact ⟨f, List.mem_cons_self, hkey⟩
    · obtain ⟨g, hg, hkey⟩ := ih hm
      exact ⟨g, List.mem_cons_of_mem _ hg, hkey⟩

/-- A field does not answer to what stands for the later ones, nor to what stands for none. -/
theorem HasMembers.not_answersTo {f : Field} (h : HasMembers fields forms row own)
    (hf : ∀ g ∈ fields, ∀ key, g.answersTo key → f.answersTo key = false)
    (hothers : ∀ m ∈ others, Field.Unknown (f :: fields) m.1) :
    ∀ m ∈ own ++ others, f.answersTo m.1 = false := by
  intro m hm
  rcases List.mem_append.mp hm with hm | hm
  · obtain ⟨g, hg, hkey⟩ := h.exists_field hm
    exact hf g hg m.1 hkey
  · exact hothers m hm f List.mem_cons_self

/-- **In whatever order they stand, the members give every field its value.** -/
theorem HasMembers.givenBy (h : HasMembers fields forms row own) :
    ∀ {members}, Field.Apart fields → forms.Sound fields →
    (∀ m ∈ others, Field.Unknown fields m.1) → members.Perm (own ++ others) →
    (∀ m ∈ members, m.2.depth ≤ room) → GivenBy room fields row (memberDocs members) := by
  induction h with
  | nil =>
    intro members _ _ _ _ _ member hmember
    rw [Json.memberDocs_eq_map] at hmember
    obtain ⟨m, -, rfl⟩ := List.mem_map.mp hmember
    exact ⟨rfl, Json.isWhole_toDoc m.2⟩
  | @leftOut f _ _ _ _ _ _ hx hrest ih =>
    intro members hapart hsound hothers hperm hdepth
    obtain ⟨hf, hfields⟩ := List.pairwise_cons.mp hapart
    obtain ⟨hmine, hlater⟩ := perm_filter_of_perm_append (fun m => f.answersTo m.1) [] hperm
      (List.forall_mem_nil _) (hrest.not_answersTo hf hothers)
    refine ⟨?_, ?_⟩
    · rw [Field.filter_owns_memberDocs, List.perm_nil.mp hmine]
      exact Field.givenBy_nil hx room
    · rw [Field.filter_not_owns_memberDocs]
      exact ih hfields hsound.2 (fun m hm => (List.forall_mem_cons.mp (hothers m hm)).2) hlater
        fun m hm => hdepth m (List.mem_filter.mp hm).1
  | @cons f _ _ _ _ _ _ key j hkey hj hrest ih =>
    intro members hapart hsound hothers hperm hdepth
    obtain ⟨hf, hfields⟩ := List.pairwise_cons.mp hapart
    -- Wherever the member of `f` stands, it is the only one that `f` answers to, and the others
    -- are again the members of the later fields and of none, in some order.
    obtain ⟨hmine, hlater⟩ := perm_filter_of_perm_append (fun m => f.answersTo m.1) [(key, j)]
      hperm (List.forall_mem_singleton.mpr hkey) (hrest.not_answersTo hf hothers)
    have hmem : (key, j) ∈ members := hperm.mem_iff.mpr List.mem_cons_self
    refine ⟨?_, ?_⟩
    · rw [Field.filter_owns_memberDocs, List.perm_singleton.mp hmine]
      exact Field.givenBy_singleton hkey (hsound.1 hj (hdepth _ hmem))
    · rw [Field.filter_not_owns_memberDocs]
      exact ih hfields hsound.2 (fun m hm => (List.forall_mem_cons.mp (hothers m hm)).2) hlater
        fun m hm => hdepth m (List.mem_filter.mp hm).1

/-- **The items give the fields their values in order, and none is left over.** -/
theorem HasItems.ofItems {items : List Json} (h : HasItems fields forms row items) :
    forms.Sound fields → (∀ j ∈ items, j.depth ≤ room) →
    ofItems room true fields (itemDocs items) = .ok (row, []) := by
  induction h with
  | nil => exact fun _ _ => rfl
  | leftOut hx _ ih =>
    intro hsound hdepth
    have hrest := ih hsound.2 hdepth
    rw [itemDocs] at hrest ⊢
    simp only [Row.ofItems, if_true, hx, hrest]
    rfl
  | cons hj _ ih =>
    intro hsound hdepth
    obtain ⟨hitem, hdepth⟩ := List.forall_mem_cons.mp hdepth
    rw [itemDocs, Row.ofItems, hsound.1 hj hitem, ih hsound.2 hdepth]
    rfl

end

end Row

/-! ## Reading a record -/

namespace Layout

variable {α : Type} {l : Layout α} {forms : FieldForms l.fields} {room : Nat} {x : α}

/-- No two fields answer to one name, the forms of their values are sound, and the row holds all of
the record. -/
structure Readable (l : Layout α) (forms : FieldForms l.fields) : Prop where
  apart : Field.Apart l.fields
  sound : forms.Sound l.fields
  ofRow_toRow : ∀ x, l.ofRow (l.toRow x) = x

theorem ofMembers_of_isForm (hl : l.Readable forms) {members : List (String × Json)}
    (h : l.IsForm forms x (.object members)) (hdepth : ∀ m ∈ members, m.2.depth ≤ room) :
    l.ofMembers room (memberDocs members) true = .ok x := by
  cases h with
  | object hown hothers hmembers =>
    have hgiven := hown.givenBy hl.apart hl.sound hothers hmembers hdepth
    rw [ofMembers, Row.ofMembers_of_givenBy hgiven]
    exact congrArg Except.ok (hl.ofRow_toRow x)

theorem ofItems_of_isForm (hl : l.Readable forms) {items : List Json}
    (h : l.IsForm forms x (.array items)) (hdepth : ∀ j ∈ items, j.depth ≤ room) :
    l.ofItems room (itemDocs items) true = .ok (x, []) := by
  cases h with
  | array hitems =>
    rw [ofItems, hitems.ofItems hl.sound hdepth]
    exact congrArg (fun x => Except.ok (x, [])) (hl.ofRow_toRow x)

/-- The order of the members does not matter. -/
theorem IsForm.of_perm {members members' : List (String × Json)}
    (h : l.IsForm forms x (.object members)) (hperm : members'.Perm members) :
    l.IsForm forms x (.object members') := by
  cases h with
  | object hown hothers hmembers => exact .object hown hothers (hperm.trans hmembers)

/-- **Every form of a record is read as the record.** -/
theorem sound_isForm (hl : l.Readable forms) : @Forms.Sound α l.wire (l.IsForm forms) := by
  intro x j room h hdepth
  cases room with
  | zero => cases h <;> simp [Json.depth] at hdepth
  | succ room =>
    cases h with
    | object hown hothers hmembers =>
      exact ofMembers_of_isForm hl (.object hown hothers hmembers)
        (Json.depth_object_le_succ_iff.mp hdepth)
    | @array items hitems =>
      have hread := ofItems_of_isForm hl (.array hitems) (Json.depth_array_le_succ_iff.mp hdepth)
      show l.decode (room + 1) (.array (itemDocs items) true) = .ok x
      simp only [decode, hread]
      rfl

end Layout

/-! ## The encoded record -/

/-- The encoded value of every field is a form of it, or is left out where its field has it
then. -/
def FieldForms.HasEncoded : (fields : List Field) → FieldForms fields → Row fields → Prop
  | [], _, _ => True
  | f :: fields, (form, forms), (x, row) =>
    (if f.isHidden x then f.absent = some x else form x (f.wire.toJson x)) ∧
      FieldForms.HasEncoded fields forms row

theorem Row.hasMembers_toMembers : ∀ {fields : List Field} {forms : FieldForms fields}
    {row : Row fields}, forms.HasEncoded fields row →
    HasMembers fields forms row (row.toMembers fields)
  | [], _, _, _ => .nil
  | f :: fields, (form, forms), (x, row), ⟨hx, hrow⟩ => by
    have hrest := hasMembers_toMembers hrow
    rw [toMembers]
    split
    · next hhidden => exact .leftOut (by rwa [if_pos hhidden] at hx) hrest
    · next hhidden => exact .cons f.answersTo_name (by rwa [if_neg hhidden] at hx) hrest

/-- **The encoded record is a form of the record.** -/
theorem Layout.isForm_toMembers {α : Type} {l : Layout α} {forms : FieldForms l.fields} {x : α}
    (h : forms.HasEncoded l.fields (l.toRow x)) : l.IsForm forms x (.object (l.toMembers x)) :=
  .object (Row.hasMembers_toMembers h) (List.forall_mem_nil _)
    (by rw [List.append_nil, toMembers])

end Timeline
