import Timeline.Proofs.Trees
import Timeline.Wire.Layout

/-!
# Records that read back

**Field by field.** The members of an object are taken in their order, whatever fields they are
for. What a field gets in this way is what its own members alone would give it, and the members of
other fields do not matter to it (`Slots.gather_cons`). So a record is read if each field gets its
value from its own members and all other members can be passed over (`Row.GivenBy`).

**Round trips.** A value makes the round trip in some room if its written form is integral, is not
nested deeper than the room, and is read as the value there (`Wire.RoundTrips`). A record of a
lawful layout does if the values of its fields do; a value that is left out must be the one that
its field has where it is left out.

Main statements: `Row.ofMembers_of_givenBy` and `Layout.roundTrips`.
-/

namespace Timeline

open Json (Doc memberDocs)

/-! ## Reading field by field -/

/-- The member is one for the field. -/
def Field.owns (f : Field) (member : Option String × Doc) : Bool := member.1.any f.answersTo

namespace Slots

variable {room : Nat} {f : Field} {fields : List Field}

theorem fill_cons_of_not_answersTo {key : String} (h : f.answersTo key = false) (doc : Doc)
    (slot : Option f.type) (slots : Slots fields) :
    fill room key doc (f :: fields) (slot, slots) =
      (fill room key doc fields slots).map fun result => result.map fun slots => (slot, slots) :=
  if_neg (by simp [h])

/-- **A field gets what its own members give it, and the other fields get what the other members
give them.** -/
theorem gather_cons {members : List (Option String × Doc)} {filled : Option f.type} :
    ∀ {slot : Option f.type} (slots : Slots fields),
    gather room [f] (slot, ()) (members.filter f.owns) = .ok (filled, ()) →
    gather room (f :: fields) (slot, slots) members =
      (gather room fields slots (members.filter fun m => !f.owns m)).map fun slots =>
        (filled, slots) := by
  induction members with
  | nil =>
    intro slot slots h
    cases h
    rfl
  | cons member rest ih =>
    intro slot slots h
    obtain ⟨_ | key, doc⟩ := member
    · rfl
    by_cases hkey : f.answersTo key
    · have howns : f.owns (some key, doc) = true := hkey
      rw [List.filter_cons_of_pos howns] at h
      rw [List.filter_cons_of_neg (by simp [howns])]
      cases slot with
      | some x => simp [gather, fill, hkey] at h
      | none =>
        cases hdoc : f.wire.decode room doc with
        | error e => simp [gather, fill, hkey, hdoc, Except.map] at h
        | ok x =>
          simp only [gather, fill, hkey, hdoc, Except.map, if_true] at h ⊢
          exact ih slots h
    · rw [Bool.not_eq_true] at hkey
      have howns : f.owns (some key, doc) = false := hkey
      rw [List.filter_cons_of_neg (by simp [howns])] at h
      rw [List.filter_cons_of_pos (by simp [howns])]
      simp only [gather, fill_cons_of_not_answersTo hkey]
      cases fill room key doc fields slots with
      | none =>
        simp only [Option.map_none]
        split
        · exact ih slots h
        · rfl
      | some result =>
        cases result with
        | error e => rfl
        | ok slots => exact ih slots h

end Slots

/-- The own members of a field give it the value: none of them where it may be left out, else
one. -/
def Field.GivenBy (f : Field) (room : Nat) (x : f.type) (own : List (Option String × Doc)) : Prop :=
  ∃ slot, Slots.gather room [f] (none, ()) own = .ok (slot, ()) ∧ slot.or f.absent = some x

theorem Field.givenBy_nil {f : Field} {x : f.type} (h : f.absent = some x) (room : Nat) :
    f.GivenBy room x [] :=
  ⟨none, rfl, h⟩

theorem Field.givenBy_singleton {f : Field} {room : Nat} {key : String} {doc : Doc} {x : f.type}
    (hkey : f.answersTo key) (hdoc : f.wire.decode room doc = .ok x) :
    f.GivenBy room x [(some key, doc)] :=
  ⟨some x, by simp [Slots.gather, Slots.fill, hkey, hdoc, Except.map], rfl⟩

namespace Row

/-- The members give every field its value, and those for no field can be passed over. -/
def GivenBy (room : Nat) : (fields : List Field) → Row fields → List (Option String × Doc) → Prop
  | [], _, members => ∀ member ∈ members, member.1.isSome ∧ member.2.isWhole
  | f :: fields, (x, row), members =>
    f.GivenBy room x (members.filter f.owns) ∧
      GivenBy room fields row (members.filter fun m => !f.owns m)

theorem exists_slots_of_givenBy {room : Nat} : ∀ {fields : List Field} {row : Row fields}
    {members : List (Option String × Doc)}, GivenBy room fields row members →
    ∃ slots, Slots.gather room fields (.empty fields) members = .ok slots ∧
      slots.finish fields = .ok row
  | [], _, members => by
    intro h
    refine ⟨(), ?_, rfl⟩
    induction members with
    | nil => rfl
    | cons member rest ih =>
      obtain ⟨⟨hkey, hwhole⟩, hrest⟩ := List.forall_mem_cons.mp h
      obtain ⟨key, hsome⟩ := Option.isSome_iff_exists.mp hkey
      obtain ⟨_, doc⟩ := member
      cases hsome
      simp only [Slots.gather, Slots.fill, hwhole, if_true]
      exact ih hrest
  | f :: fields, (x, row), members => by
    rintro ⟨⟨slot, hown, hx⟩, hrest⟩
    obtain ⟨slots, hslots, hfinish⟩ := exists_slots_of_givenBy hrest
    refine ⟨(slot, slots), ?_, ?_⟩
    · rw [Slots.empty, Slots.gather_cons _ hown, hslots]
      rfl
    · rw [Slots.finish, hx]
      simp only [hfinish, Except.map]

/-- **A record is read if its members give every field its value.** -/
theorem ofMembers_of_givenBy {room : Nat} {fields : List Field} {row : Row fields}
    {members : List (Option String × Doc)} (h : GivenBy room fields row members) :
    ofMembers room fields members true = .ok row := by
  obtain ⟨slots, hslots, hfinish⟩ := exists_slots_of_givenBy h
  rw [ofMembers, hslots]
  exact hfinish

end Row

/-! ## Round trips -/

/-- The value is written as an integral value that fits in the room and is read as the same
value there. -/
structure Wire.RoundTrips {α : Type} [Wire α] (room : Nat) (x : α) : Prop where
  isIntegral : (Wire.toJson x).isIntegral
  depth_le : (Wire.toJson x).depth ≤ room
  decode_eq : Wire.decode room (Wire.toJson x).toDoc = .ok x

/-- No field is read under the name of a later one. -/
def Field.Distinct (fields : List Field) : Prop :=
  fields.Pairwise fun f g => f.answersTo g.name = false

theorem Field.answersTo_name (f : Field) : f.answersTo f.name := by simp [answersTo]

namespace Row

/-- Every value of the row makes the round trip, or is left out where its field has it then. -/
def RoundTrips (room : Nat) : (fields : List Field) → Row fields → Prop
  | [], _ => True
  | f :: fields, (x, row) =>
    (if f.isHidden x then f.absent = some x else @Wire.RoundTrips f.type f.wire room x) ∧
      RoundTrips room fields row

theorem exists_field_of_mem_toMembers {member : String × Json} : ∀ {fields : List Field}
    {row : Row fields}, member ∈ row.toMembers fields → ∃ f ∈ fields, f.name = member.1
  | f :: fields, (x, row), h => by
    rw [toMembers] at h
    split at h
    · obtain ⟨g, hg, hname⟩ := exists_field_of_mem_toMembers h
      exact ⟨g, List.mem_cons_of_mem f hg, hname⟩
    · rcases List.mem_cons.mp h with rfl | h
      · exact ⟨f, List.mem_cons_self, rfl⟩
      · obtain ⟨g, hg, hname⟩ := exists_field_of_mem_toMembers h
        exact ⟨g, List.mem_cons_of_mem f hg, hname⟩

theorem toMembers_of_roundTrips {room : Nat} {member : String × Json} : ∀ {fields : List Field}
    {row : Row fields}, RoundTrips room fields row → member ∈ row.toMembers fields →
    member.2.isIntegral ∧ member.2.depth ≤ room
  | f :: fields, (x, row), ⟨hx, hrow⟩, h => by
    rw [toMembers] at h
    split at h
    · exact toMembers_of_roundTrips hrow h
    · next hhidden =>
      rw [if_neg hhidden] at hx
      obtain ⟨hintegral, hdepth, -⟩ := hx
      rcases List.mem_cons.mp h with rfl | h
      · exact ⟨hintegral, hdepth⟩
      · exact toMembers_of_roundTrips hrow h

/-- A field does not own what the later ones write. -/
theorem owns_of_mem_memberDocs {f : Field} {fields : List Field} {row : Row fields}
    (h : ∀ g ∈ fields, f.answersTo g.name = false) {member : Option String × Doc}
    (hmember : member ∈ memberDocs (row.toMembers fields)) : f.owns member = false := by
  rw [Json.memberDocs_eq_map] at hmember
  obtain ⟨written, hwritten, rfl⟩ := List.mem_map.mp hmember
  obtain ⟨g, hg, hname⟩ := exists_field_of_mem_toMembers hwritten
  simpa [Field.owns, ← hname] using h g hg

/-- **The written members give every field its value.** -/
theorem givenBy_memberDocs {room : Nat} : ∀ {fields : List Field} {row : Row fields},
    Field.Distinct fields → RoundTrips room fields row →
    GivenBy room fields row (memberDocs (row.toMembers fields))
  | [], _, _, _ => fun _ h => nomatch h
  | f :: fields, (x, row), hdistinct, ⟨hx, hrow⟩ => by
    obtain ⟨hf, hfields⟩ := List.pairwise_cons.mp hdistinct
    have hothers : ∀ member ∈ memberDocs (row.toMembers fields), f.owns member = false :=
      fun _ => owns_of_mem_memberDocs hf
    have hown : (memberDocs (row.toMembers fields)).filter f.owns = [] :=
      List.filter_eq_nil_iff.mpr fun m hm => by simp [hothers m hm]
    have hrest : (memberDocs (row.toMembers fields)).filter (fun m => !f.owns m) =
        memberDocs (row.toMembers fields) :=
      List.filter_eq_self.mpr fun m hm => by simp [hothers m hm]
    have ih := givenBy_memberDocs hfields hrow
    rw [toMembers]
    split
    · next hhidden =>
      rw [if_pos hhidden] at hx
      refine ⟨hown ▸ Field.givenBy_nil hx room, ?_⟩
      rw [hrest]
      exact ih
    · next hhidden =>
      rw [if_neg hhidden] at hx
      obtain ⟨-, -, hdecode⟩ := hx
      have howns : f.owns (some f.name, (f.wire.toJson x).toDoc) = true := f.answersTo_name
      rw [memberDocs, GivenBy, List.filter_cons_of_pos howns, hown,
        List.filter_cons_of_neg (by simp [howns]), hrest]
      exact ⟨Field.givenBy_singleton f.answersTo_name hdecode, ih⟩

end Row

namespace Layout

variable {α : Type} {l : Layout α} {room : Nat} {x : α}

/-- The fields of a record can be told apart, and its row holds all of it. -/
structure Lawful (l : Layout α) : Prop where
  distinct : Field.Distinct l.fields
  ofRow_toRow : ∀ x, l.ofRow (l.toRow x) = x

theorem ofMembers_memberDocs (hl : l.Lawful) (h : Row.RoundTrips room l.fields (l.toRow x)) :
    l.ofMembers room (memberDocs (l.toMembers x)) true = .ok x := by
  rw [ofMembers, toMembers, Row.ofMembers_of_givenBy (Row.givenBy_memberDocs hl.distinct h)]
  exact congrArg Except.ok (hl.ofRow_toRow x)

/-- **A record makes the round trip if the values of its fields do, one level deeper.** -/
theorem roundTrips (hl : l.Lawful) (h : Row.RoundTrips room l.fields (l.toRow x)) :
    @Wire.RoundTrips α l.wire (room + 1) x := by
  have hmembers : ∀ m ∈ l.toMembers x, m.2.isIntegral ∧ m.2.depth ≤ room := fun _ =>
    Row.toMembers_of_roundTrips h
  let _ := l.wire
  exact {
    isIntegral := Json.everywhere_object.mpr ⟨rfl, fun m hm => (hmembers m hm).1⟩
    depth_le := Json.depth_object_le_succ_iff.mpr fun m hm => (hmembers m hm).2
    decode_eq := ofMembers_memberDocs hl h }

end Layout

end Timeline
