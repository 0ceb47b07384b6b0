import Mathlib.Data.List.Forall2
import Timeline.Proofs.Forms
import Timeline.Proofs.RoundTrip

/-!
# Forms that are accepted

Entries, pages, bounds and views are read from more than their encoded form.

**Values of fields.** A text, a mark, a mode and a count are written in one way. A payload may have
the members of its objects in any order. A list of entries is an array of forms of them. A threshold
that is not given is `null` or is left out.

**Entries.** The form of an entry is a form of the record of its kind with the kind added: to an
object as one more member, which may stand anywhere, or to an array in front. The first pass over an
object finds the kind wherever it is, and has no other member to stop at: all of them are values
that fit in the room, and none is a second kind. What is left for the second pass is the record
again, its members in some order.

**Texts.** A form is read from its text if all numbers in it, also those of members that no field
answers to, are integers of 64 bits, and if it is not nested too deeply.

Main statement: `Wire.decodeText_isForm`.
-/

namespace Timeline

open Json (Doc memberDocs itemDocs)

/-! ## Values of fields -/

namespace Forms

variable {α : Type} [Wire α]

/-- The value as it is encoded. -/
def encoded : Forms α := fun x j => j = Wire.toJson x

/-- A value with the members of its objects in any order. The last of several with one key
counts. -/
def anyOrder : Forms Json := fun x j => j.sorted = x

/-- An array of forms of the values. -/
def list (forms : Forms α) : Forms (List α) := fun xs j =>
  ∃ items, List.Forall₂ forms xs items ∧ j = .array items

/-- A form of the value, or `null` for none. -/
def option (forms : Forms α) : Forms (Option α)
  | none, j => j = .null
  | some x, j => forms x j

theorem sound_encoded (h : ∀ (x : α) room, Wire.decode room (Wire.toJson x).toDoc = .ok x) :
    Sound (encoded : Forms α) := by
  rintro x _ room rfl _
  exact h x room

theorem sound_string : Sound (encoded : Forms String) := sound_encoded fun _ _ => rfl

theorem sound_bool : Sound (encoded : Forms Bool) := sound_encoded fun _ _ => rfl

theorem sound_nat : Sound (encoded : Forms Nat) := sound_encoded fun _ _ => rfl

theorem sound_mode : Sound (encoded : Forms Mode) :=
  sound_encoded fun m room => (Mode.roundTrips room m).decode_eq

theorem toDoc_ne_null_of_nat {n : Nat} {j : Json} (h : encoded n j) : j.toDoc ≠ .null := by
  intro hnull
  obtain rfl : j = .nat n := h
  cases hnull

theorem sound_anyOrder : Sound anyOrder := by
  rintro _ j room rfl hdepth
  simp only [Wire.decode, Json.value?_toDoc j hdepth]

variable {forms : Forms α}

theorem decodeItems_of_forall₂ (h : Sound forms) {xs : List α} {items : List Json} {room : Nat}
    (hitems : List.Forall₂ forms xs items) :
    (∀ j ∈ items, j.depth ≤ room) → Wire.decodeItems room (itemDocs items) = .ok xs := by
  induction hitems with
  | nil => exact fun _ => rfl
  | cons hx _ ih =>
    intro hdepth
    obtain ⟨hitem, hdepth⟩ := List.forall_mem_cons.mp hdepth
    rw [itemDocs, Wire.decodeItems, h hx hitem, ih hdepth]
    rfl

theorem sound_list (h : Sound forms) : Sound (list forms) := by
  rintro xs _ room ⟨items, hitems, rfl⟩ hdepth
  cases room with
  | zero => simp [Json.depth] at hdepth
  | succ room =>
    have hread := decodeItems_of_forall₂ h hitems (Json.depth_array_le_succ_iff.mp hdepth)
    simp only [Wire.decode, Json.toDoc, hread]
    rfl

/-- No form of a value may be `null`, which stands for none. -/
theorem sound_option (h : Sound forms) (hnull : ∀ {x j}, forms x j → j.toDoc ≠ .null) :
    Sound (option forms) := by
  intro x j room hx hdepth
  cases x with
  | none =>
    obtain rfl : j = .null := hx
    rfl
  | some x => rw [Wire.decode_option (hnull hx), h hx hdepth]; rfl

end Forms

/-! ## Records of one kind -/

def Message.forms : FieldForms Message.layout.fields :=
  (.encoded, .encoded, .encoded, .anyOrder, ())

def DeviceStatus.forms : FieldForms DeviceStatus.layout.fields :=
  (.encoded, .encoded, .encoded, .encoded, ())

def Membership.forms : FieldForms Membership.layout.fields := (.encoded, .encoded, .encoded, ())

theorem Message.readable : layout.Readable forms where
  apart := by simp [Field.Apart, Field.answersTo]
  sound := ⟨Forms.sound_string, Forms.sound_string, Forms.sound_nat, Forms.sound_anyOrder, trivial⟩
  ofRow_toRow _ := rfl

theorem DeviceStatus.readable : layout.Readable forms where
  apart := by simp [Field.Apart, Field.answersTo]
  sound := ⟨Forms.sound_string, Forms.sound_string, Forms.sound_nat, Forms.sound_bool, trivial⟩
  ofRow_toRow _ := rfl

theorem Membership.readable : layout.Readable forms where
  apart := by simp [Field.Apart, Field.answersTo]
  sound := ⟨Forms.sound_string, Forms.sound_nat, Forms.sound_bool, trivial⟩
  ofRow_toRow _ := rfl

/-! ## Entries -/

namespace Entry

section

variable {α : Type}

/-- What may stand for an entry that is a record of a kind with this name. -/
inductive IsTagged (tag : String) (l : Layout α) (forms : FieldForms l.fields) (x : α) : Json → Prop
  | object {others members : List (String × Json)} (hrecord : l.IsForm forms x (.object others))
      (hothers : ∀ m ∈ others, m.1 ≠ kindKey)
      (hmembers : members.Perm ((kindKey, .string tag) :: others)) :
      IsTagged tag l forms x (.object members)
  | array {items : List Json} (hrecord : l.IsForm forms x (.array items)) :
      IsTagged tag l forms x (.array (.string tag :: items))

/-- The name stands for the kind, and entries of the kind are records of the layout. -/
structure Kind.ReadsAs (kind : Kind) (tag : String) (l : Layout α) (wrap : α → Entry) : Prop where
  choose_eq : Wire.choose Kind.names tag = .ok kind
  ofMembers_eq : ∀ room members,
    ofMembers room members kind = (l.ofMembers room members true).map wrap
  ofItems_eq : ∀ room items,
    ofItems room items kind = (l.ofItems room items true).map fun (x, rest) => (wrap x, rest)

/-- The kind is found wherever it stands. -/
theorem findKind_of_filter {tag : String} {kind : Kind} {members : List (String × Json)}
    {room : Nat} (htag : Wire.choose Kind.names tag = .ok kind)
    (hkind : members.filter (fun m => m.1 == kindKey) = [(kindKey, .string tag)])
    (hdepth : ∀ m ∈ members, m.2.depth ≤ room) :
    findKind room none (memberDocs members) = .ok (some kind) := by
  induction members with
  | nil => cases hkind
  | cons m rest ih =>
    obtain ⟨hm, hrest⟩ := List.forall_mem_cons.mp hdepth
    by_cases hkey : m.1 = kindKey
    · rw [List.filter_cons_of_pos (by simp [hkey])] at hkind
      obtain ⟨rfl, hnone⟩ := List.cons.inj hkind
      have hkeys : ∀ m ∈ rest, m.1 ≠ kindKey := fun m hm => by
        simpa using List.filter_eq_nil_iff.mp hnone m hm
      simp only [memberDocs, Json.toDoc, findKind, if_true, Kind.ofDoc, htag]
      exact findKind_memberDocs hkeys hrest
    · rw [List.filter_cons_of_neg (by simp [hkey])] at hkind
      have hvalue : (m.2.toDoc.value? room).isSome := by rw [Json.value?_toDoc m.2 hm]; rfl
      simp only [memberDocs, findKind, if_neg hkey, if_pos hvalue]
      exact ih hkind hrest

theorem withoutKind_eq (members : List (String × Json)) :
    withoutKind (memberDocs members) =
      memberDocs (members.filter fun m => !(m.1 == kindKey)) := by
  rw [withoutKind, Json.memberDocs_eq_map, Json.memberDocs_eq_map, List.filter_map]
  rfl

/-- **An entry is read from a form of the record of its kind with the kind added.** -/
theorem decode_of_isTagged {kind : Kind} {tag : String} {l : Layout α} {wrap : α → Entry}
    {forms : FieldForms l.fields} {x : α} {j : Json} {room : Nat}
    (hkind : kind.ReadsAs tag l wrap) (hl : l.Readable forms) (h : IsTagged tag l forms x j)
    (hdepth : j.depth ≤ room) : decode room j.toDoc = .ok (wrap x) := by
  cases room with
  | zero => cases h <;> simp [Json.depth] at hdepth
  | succ room =>
    cases h with
    | @object _ members hrecord hothers hmembers =>
      rw [Json.depth_object_le_succ_iff] at hdepth
      obtain ⟨hfound, hrest⟩ := perm_filter_of_perm_append (fun m => m.1 == kindKey)
        [(kindKey, Json.string tag)] hmembers (by simp) fun m hm => by simpa using hothers m hm
      have hfind := findKind_of_filter hkind.choose_eq (List.perm_singleton.mp hfound) hdepth
      -- Without the kind the members are those of the record in another order.
      have hread : ofMembers room (withoutKind (memberDocs members)) kind = .ok (wrap x) := by
        rw [withoutKind_eq, hkind.ofMembers_eq, Layout.ofMembers_of_isForm hl
          (hrecord.of_perm hrest) fun m hm => hdepth m (List.mem_filter.mp hm).1]
        rfl
      rw [Json.toDoc, decode, hfind]
      exact hread
    | @array items hrecord =>
      obtain ⟨-, hitems⟩ := List.forall_mem_cons.mp (Json.depth_array_le_succ_iff.mp hdepth)
      have hvalues := Json.itemValues?_itemDocs fun item hi =>
        Json.value?_toDoc item (hitems item hi)
      have hread : ofItems room (itemDocs items) kind = .ok (wrap x, []) := by
        rw [hkind.ofItems_eq, Layout.ofItems_of_isForm hl hrecord hitems]
        rfl
      simp only [Json.toDoc, itemDocs, decode, Kind.ofDoc, hkind.choose_eq, hvalues, bind,
        Except.bind, Option.isSome_some, Bool.and_self, if_true, hread]
      rfl

/-- The encoded entry is a form of it if the encoded record is one of the record. -/
theorem isTagged_toMembers {tag : String} {l : Layout α} {forms : FieldForms l.fields} {x : α}
    (hnames : ∀ f ∈ l.fields, f.name ≠ kindKey) (h : forms.HasEncoded l.fields (l.toRow x)) :
    IsTagged tag l forms x (.object ((kindKey, .string tag) :: l.toMembers x)) :=
  .object (Layout.isForm_toMembers h) (fun _ => ne_kindKey_of_mem_toMembers hnames) (.refl _)

end

/-! ### The three kinds -/

/-- What may stand for an entry. -/
def IsForm : Forms Entry
  | .message m => IsTagged "message" Message.layout Message.forms m
  | .device d => IsTagged "node_status" DeviceStatus.layout DeviceStatus.forms d
  | .membership u => IsTagged "user_status" Membership.layout Membership.forms u

theorem Kind.readsAs_message : Kind.message.ReadsAs "message" Message.layout .message :=
  ⟨rfl, fun _ _ => rfl, fun _ _ => rfl⟩

theorem Kind.readsAs_device : Kind.device.ReadsAs "node_status" DeviceStatus.layout .device :=
  ⟨rfl, fun _ _ => rfl, fun _ _ => rfl⟩

theorem Kind.readsAs_membership :
    Kind.membership.ReadsAs "user_status" Membership.layout .membership :=
  ⟨rfl, fun _ _ => rfl, fun _ _ => rfl⟩

theorem sound_isForm : Forms.Sound IsForm := by
  intro e j room h hdepth
  cases e with
  | message m => exact decode_of_isTagged Kind.readsAs_message Message.readable h hdepth
  | device d => exact decode_of_isTagged Kind.readsAs_device DeviceStatus.readable h hdepth
  | membership u => exact decode_of_isTagged Kind.readsAs_membership Membership.readable h hdepth

theorem isForm_toJson {e : Entry} (h : e.Portable) : e.IsForm e.toJson := by
  cases e with
  | message m =>
    obtain ⟨-, -, hsorted, -⟩ := h
    exact isTagged_toMembers (by simp [kindKey])
      ⟨rfl, rfl, rfl, Json.sorted_eq_self m.payload hsorted, trivial⟩
  | device d => exact isTagged_toMembers (by simp [kindKey]) ⟨rfl, rfl, rfl, rfl, trivial⟩
  | membership u => exact isTagged_toMembers (by simp [kindKey]) ⟨rfl, rfl, rfl, trivial⟩

theorem isForm_encodedList {es : List Entry} (h : ∀ e ∈ es, e.Portable) :
    Forms.list IsForm es (Wire.toJson es) := by
  refine ⟨es.map toJson, ?_, rfl⟩
  rw [List.forall₂_map_right_iff, List.forall₂_same]
  exact fun e he => isForm_toJson (h e he)

end Entry

/-! ## Pages, bounds and views -/

def Page.forms : FieldForms Page.layout.fields :=
  (.list Entry.IsForm, .encoded, .encoded, .encoded, ())

def Bounds.forms : FieldForms Bounds.layout.fields := (.encoded, .option .encoded, ())

def View.forms : FieldForms View.layout.fields :=
  (.encoded, .encoded, .list Entry.IsForm, .encoded, .encoded, ())

/-- What may stand for a page. -/
def Page.IsForm : Forms Page := Page.layout.IsForm Page.forms

/-- What may stand for bounds. -/
def Bounds.IsForm : Forms Bounds := Bounds.layout.IsForm Bounds.forms

/-- What may stand for a view. -/
def View.IsForm : Forms View := View.layout.IsForm View.forms

theorem Page.readable : layout.Readable forms where
  apart := by simp [Field.Apart, Field.answersTo]
  sound := ⟨Forms.sound_list Entry.sound_isForm, Forms.sound_nat, Forms.sound_bool,
    Forms.sound_bool, trivial⟩
  ofRow_toRow _ := rfl

theorem Bounds.readable : layout.Readable forms where
  apart := by simp [Field.Apart, Field.answersTo]
  sound := ⟨Forms.sound_nat, Forms.sound_option Forms.sound_nat Forms.toDoc_ne_null_of_nat, trivial⟩
  ofRow_toRow _ := rfl

theorem View.readable : layout.Readable forms where
  apart := by simp [Field.Apart, Field.answersTo]
  sound := ⟨Forms.sound_string, Forms.sound_mode, Forms.sound_list Entry.sound_isForm,
    Forms.sound_bool, Forms.sound_bool, trivial⟩
  ofRow_toRow _ := rfl

theorem Page.sound_isForm : Forms.Sound Page.IsForm := Layout.sound_isForm readable

theorem Bounds.sound_isForm : Forms.Sound Bounds.IsForm := Layout.sound_isForm readable

theorem View.sound_isForm : Forms.Sound View.IsForm := Layout.sound_isForm readable

theorem Page.isForm_toJson {p : Page} (h : p.Portable) : p.IsForm (Wire.toJson p) :=
  Layout.isForm_toMembers ⟨Entry.isForm_encodedList h.2, rfl, rfl, rfl, trivial⟩

theorem Bounds.isForm_toJson (b : Bounds) : b.IsForm (Wire.toJson b) := by
  refine Layout.isForm_toMembers ⟨rfl, ?_, trivial⟩
  cases hgiven : b.givenThreshold <;> rfl

theorem View.isForm_toJson {v : View} (h : v.Portable) : v.IsForm (Wire.toJson v) :=
  Layout.isForm_toMembers ⟨rfl, rfl, Entry.isForm_encodedList h, rfl, rfl, trivial⟩

/-! ## Texts -/

/-- **Every form of a value is read from its text as the value.** -/
theorem Forms.Sound.decodeText_eq {α : Type} [Wire α] {forms : Forms α} (h : forms.Sound) {x : α}
    {j : Json} (hx : forms x j) (hintegral : j.isIntegral) (hdepth : j.depth ≤ Doc.depthLimit) :
    Wire.decodeText j.text = .ok x := by
  rw [Wire.decodeText, Doc.read_text hintegral]
  simp only [h hx hdepth]
  rfl

/-- **The encoded value is a form of it, and every form of a value is decoded to the value**, for
entries, pages, bounds and views. -/
theorem Wire.decodeText_isForm :
    (∀ e : Entry, (e.Portable → e.IsForm (toJson e)) ∧ ∀ j, e.IsForm j → j.isIntegral →
      j.depth ≤ Doc.depthLimit → decodeText j.text = .ok e) ∧
    (∀ p : Page, (p.Portable → p.IsForm (toJson p)) ∧ ∀ j, p.IsForm j → j.isIntegral →
      j.depth ≤ Doc.depthLimit → decodeText j.text = .ok p) ∧
    (∀ b : Bounds, b.IsForm (toJson b) ∧ ∀ j, b.IsForm j → j.isIntegral →
      j.depth ≤ Doc.depthLimit → decodeText j.text = .ok b) ∧
    (∀ v : View, (v.Portable → v.IsForm (toJson v)) ∧ ∀ j, v.IsForm j → j.isIntegral →
      j.depth ≤ Doc.depthLimit → decodeText j.text = .ok v) :=
  ⟨fun _ => ⟨Entry.isForm_toJson, fun _ => Entry.sound_isForm.decodeText_eq⟩,
    fun _ => ⟨Page.isForm_toJson, fun _ => Page.sound_isForm.decodeText_eq⟩,
    fun b => ⟨b.isForm_toJson, fun _ => Bounds.sound_isForm.decodeText_eq⟩,
    fun _ => ⟨View.isForm_toJson, fun _ => View.sound_isForm.decodeText_eq⟩⟩

/-! ### A page in another form

The page holds a message and a notice. In its form the mark of the newest page has its second name
and the other mark is left out. The message has its kind last, and both the page and the message
have members that no field answers to. The notice is an array. -/

def strayMessage : Message := ⟨"m1", "alice", 1000, .object [("text", .string "hi")]⟩

def strayPage : Page := ⟨3, [.message strayMessage, .device ⟨"n1", "bob", 5, true⟩], false, true⟩

def strayMembers : List (String × Json) :=
  [("later", .nat 1), ("payload", .object [("text", .string "hi")]), ("created_at", .nat 1000),
    ("sender_id", .string "alice"), ("id", .string "m1"), ("later", .array [.null])]

def strayMessageForm : Json := .object (strayMembers ++ [("kind", .string "message")])

def strayEntriesForm : Json :=
  .array [strayMessageForm,
    .array [.string "node_status", .string "n1", .string "bob", .nat 5, .bool true]]

def strayPageForm : Json :=
  .object [("is_latest", .bool true), ("later", .null), ("entries", strayEntriesForm),
    ("later", .object []), ("chunk_number", .nat 3)]

theorem isForm_strayMessage : Entry.IsForm (.message strayMessage) strayMessageForm := by
  have hown : Row.HasMembers Message.layout.fields Message.forms
      (Message.layout.toRow strayMessage)
      [("id", .string "m1"), ("sender_id", .string "alice"), ("created_at", .nat 1000),
        ("payload", .object [("text", .string "hi")])] :=
    .cons rfl rfl (.cons rfl rfl (.cons rfl rfl (.cons rfl rfl .nil)))
  have hothers : ∀ m ∈ [("later", Json.nat 1), ("later", .array [.null])],
      Field.Unknown Message.layout.fields m.1 := by
    simp [Field.Unknown, Field.answersTo]
  have hrecord : Message.layout.IsForm Message.forms strayMessage (.object strayMembers) :=
    .object hown hothers (by decide +kernel)
  exact .object hrecord (by decide +kernel) List.perm_append_comm

theorem isForm_strayEntries : Forms.list Entry.IsForm strayPage.entries strayEntriesForm := by
  have hdevice : Entry.IsForm (.device ⟨"n1", "bob", 5, true⟩)
      (.array [.string "node_status", .string "n1", .string "bob", .nat 5, .bool true]) :=
    .array (.array (.cons rfl (.cons rfl (.cons rfl (.cons rfl .nil)))))
  exact ⟨_, .cons isForm_strayMessage (.cons hdevice .nil), rfl⟩

theorem isForm_strayPage : strayPage.IsForm strayPageForm := by
  have hown : Row.HasMembers Page.layout.fields Page.forms (Page.layout.toRow strayPage)
      [("entries", strayEntriesForm), ("chunk_number", .nat 3), ("is_latest", .bool true)] :=
    .cons rfl isForm_strayEntries (.cons rfl rfl (.leftOut rfl (.cons rfl rfl .nil)))
  have hothers : ∀ m ∈ [("later", Json.null), ("later", .object [])],
      Field.Unknown Page.layout.fields m.1 := by
    simp [Field.Unknown, Field.answersTo]
  exact .object hown hothers (by decide +kernel)

/-- The message and the page in their forms, the entries in a view that is an array, and bounds of
which only a `null` is given. -/
theorem Wire.decodeText_isForm_stray :
    (Entry.IsForm (.message strayMessage) (toJson (Entry.message strayMessage)) ∧
      decodeText strayMessageForm.text = .ok (Entry.message strayMessage)) ∧
    (strayPage.IsForm (toJson strayPage) ∧ decodeText strayPageForm.text = .ok strayPage) ∧
    decodeText (Json.object [("overlap_threshold", .null)]).text = .ok (Bounds.mk 50 none) ∧
    decodeText (Json.array [.string "pool", .string "history", strayEntriesForm, .bool true,
      .bool false]).text = .ok (View.mk "pool" .history strayPage.entries true false) := by
  obtain ⟨hentry, hpage, hbounds, hview⟩ := decodeText_isForm
  have hboundsForm : (Bounds.mk 50 none).IsForm (.object [("overlap_threshold", .null)]) :=
    .object (.leftOut rfl (.cons rfl rfl .nil)) (List.forall_mem_nil _) (.refl _)
  have hviewForm : (View.mk "pool" .history strayPage.entries true false).IsForm
      (.array [.string "pool", .string "history", strayEntriesForm, .bool true, .bool false]) :=
    .array (.cons rfl (.cons rfl (.cons isForm_strayEntries (.cons rfl (.cons rfl .nil)))))
  exact ⟨⟨(hentry _).1 (by decide +kernel),
      (hentry _).2 _ isForm_strayMessage (by decide +kernel) (by decide +kernel)⟩,
    ⟨(hpage _).1 (by decide +kernel),
      (hpage _).2 _ isForm_strayPage (by decide +kernel) (by decide +kernel)⟩,
    (hbounds _).2 _ hboundsForm (by decide +kernel) (by decide +kernel),
    (hview _).2 _ hviewForm (by decide +kernel) (by decide +kernel)⟩

end Timeline
