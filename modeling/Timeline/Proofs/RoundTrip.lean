import Timeline.Proofs.ReadBack
import Timeline.Proofs.Records
import Timeline.Wire.Bounds
import Timeline.Wire.Page
import Timeline.Wire.View

/-!
# Round trips

Every value of the wire format is read back from its text: entries and the records of their three
kinds, pages, requests and their parts, bounds, and views.

**What can be written.** Counts and timestamps have 64 bits, and so have the integers that a
payload is made of. The keys of its objects are in order, as they are after reading. A page or a
view takes three levels of nesting for itself, and a payload has the rest (`payloadRoom`). Strings
and lists of entries are arbitrary.

**How it is proved.** `Wire.RoundTrips` is shown for simple values, lists and records, and from
these for every type of the format. An entry is looked through for its kind first; its other
members are values of no greater depth than the room allows, and none of them is a second kind.

Main statement: `Wire.decodeText_encode`.
-/

namespace Timeline

open Json (Doc memberDocs itemDocs)

/-! ## Simple values and lists -/

/-- The first count that does not have 64 bits. -/
def countLimit : Nat := Nat.pow 2 64

namespace Wire

section

variable {α : Type} [Wire α] {room : Nat}

/-- **What makes the round trip in the whole depth is read back from its text.** -/
theorem RoundTrips.decodeText_eq {x : α} (h : RoundTrips Doc.depthLimit x) :
    decodeText (encode x) = .ok x := by
  rw [decodeText, encode, Doc.read_text h.isIntegral]
  simp only [h.decode_eq]
  rfl

theorem roundTrips_string (room : Nat) (s : String) : RoundTrips room s :=
  ⟨rfl, Nat.zero_le room, rfl⟩

theorem roundTrips_bool (room : Nat) (b : Bool) : RoundTrips room b :=
  ⟨rfl, Nat.zero_le room, rfl⟩

theorem roundTrips_nat (room : Nat) {n : Nat} (h : n < countLimit) : RoundTrips room n where
  isIntegral := by
    have hlower : -(Nat.pow 2 63 : Nat) ≤ (n : Int) := by omega
    show (Json.number (.int n)).isIntegral
    rw [Json.isIntegral_number, Json.Number.isInteger_int]
    exact ⟨hlower, Int.ofNat_lt.mpr h⟩
  depth_le := Nat.zero_le room
  decode_eq := rfl

theorem roundTrips_json {j : Json} (hintegral : j.isIntegral) (hsorted : j.isSorted)
    (hdepth : j.depth ≤ room) : RoundTrips room j where
  isIntegral := hintegral
  depth_le := hdepth
  decode_eq := by
    have hvalue := Json.value?_toDoc j hdepth
    rw [Json.sorted_eq_self j hsorted] at hvalue
    simp only [decode, toJson, id, hvalue]

theorem decode_option {doc : Doc} (h : doc ≠ .null) :
    (decode room doc : Except DecodeError (Option α)) = (decode room doc).map some := by
  cases doc <;> first | rfl | exact absurd rfl h

theorem RoundTrips.some {x : α} (h : RoundTrips room x) (hnull : (toJson x).toDoc ≠ .null) :
    RoundTrips room (Option.some x) where
  isIntegral := h.isIntegral
  depth_le := h.depth_le
  decode_eq := (decode_option hnull).trans (by rw [h.decode_eq]; rfl)

theorem decodeItems_itemDocs {xs : List α} (h : ∀ x ∈ xs, RoundTrips room x) :
    decodeItems room (itemDocs (xs.map toJson)) = .ok xs := by
  induction xs with
  | nil => rfl
  | cons x rest ih =>
    obtain ⟨hx, hrest⟩ := List.forall_mem_cons.mp h
    rw [List.map_cons, itemDocs, decodeItems, hx.decode_eq, ih hrest]
    rfl

theorem roundTrips_list {xs : List α} (h : ∀ x ∈ xs, RoundTrips room x) :
    RoundTrips (room + 1) xs where
  isIntegral := Json.everywhere_array.mpr
    ⟨rfl, List.forall_mem_map.mpr fun x hx => (h x hx).isIntegral⟩
  depth_le := Json.depth_array_le_succ_iff.mpr
    (List.forall_mem_map.mpr fun x hx => (h x hx).depth_le)
  decode_eq := by
    simp only [decode, toJson, Json.toDoc, decodeItems_itemDocs h]
    rfl

end

end Wire

/-! ## Entries -/

/-- How deep a payload may be nested so that it fits in a page or a view. -/
def payloadRoom : Nat := Doc.depthLimit - 3

example : payloadRoom = 124 := rfl

/-- The timestamp has 64 bits, and the payload is one that is read back as it is. -/
def Message.Portable (m : Message) : Prop :=
  m.createdAt < countLimit ∧ m.payload.isIntegral ∧ m.payload.isSorted ∧
    m.payload.depth ≤ payloadRoom

def DeviceStatus.Portable (d : DeviceStatus) : Prop := d.createdAt < countLimit

def Membership.Portable (u : Membership) : Prop := u.createdAt < countLimit

def Entry.Portable : Entry → Prop
  | .message m => m.Portable
  | .device d => d.Portable
  | .membership u => u.Portable

instance (m : Message) : Decidable m.Portable := inferInstanceAs (Decidable (_ ∧ _))

instance (d : DeviceStatus) : Decidable d.Portable := inferInstanceAs (Decidable (_ < _))

instance (u : Membership) : Decidable u.Portable := inferInstanceAs (Decidable (_ < _))

instance : DecidablePred Entry.Portable
  | .message m => inferInstanceAs (Decidable m.Portable)
  | .device d => inferInstanceAs (Decidable d.Portable)
  | .membership u => inferInstanceAs (Decidable u.Portable)

section

variable {room : Nat}

open Wire

theorem Message.row_roundTrips {m : Message} (h : m.Portable) (hroom : payloadRoom ≤ room) :
    Row.RoundTrips room layout.fields (layout.toRow m) := by
  obtain ⟨htime, hintegral, hsorted, hdepth⟩ := h
  exact ⟨roundTrips_string room m.id, roundTrips_string room m.senderId,
    roundTrips_nat room htime, roundTrips_json hintegral hsorted (Nat.le_trans hdepth hroom),
    trivial⟩

theorem DeviceStatus.row_roundTrips {d : DeviceStatus} (h : d.Portable) (room : Nat) :
    Row.RoundTrips room layout.fields (layout.toRow d) :=
  ⟨roundTrips_string room d.deviceId, roundTrips_string room d.userId, roundTrips_nat room h,
    roundTrips_bool room d.online, trivial⟩

theorem Membership.row_roundTrips {u : Membership} (h : u.Portable) (room : Nat) :
    Row.RoundTrips room layout.fields (layout.toRow u) :=
  ⟨roundTrips_string room u.userId, roundTrips_nat room h, roundTrips_bool room u.joined, trivial⟩

theorem Message.lawful : layout.Lawful :=
  ⟨by simp [Field.Distinct, Field.answersTo], fun _ => rfl⟩

theorem DeviceStatus.lawful : layout.Lawful :=
  ⟨by simp [Field.Distinct, Field.answersTo], fun _ => rfl⟩

theorem Membership.lawful : layout.Lawful :=
  ⟨by simp [Field.Distinct, Field.answersTo], fun _ => rfl⟩

namespace Entry

/-- The first pass goes over members that are values and no kinds. -/
theorem findKind_memberDocs {found : Option Kind} {members : List (String × Json)}
    (hkeys : ∀ m ∈ members, m.1 ≠ kindKey) (hdepth : ∀ m ∈ members, m.2.depth ≤ room) :
    findKind room found (memberDocs members) = .ok found := by
  induction members with
  | nil => rfl
  | cons m rest ih =>
    obtain ⟨hkey, hkeys⟩ := List.forall_mem_cons.mp hkeys
    obtain ⟨hm, hdepth⟩ := List.forall_mem_cons.mp hdepth
    have hvalue : (m.2.toDoc.value? room).isSome := by rw [Json.value?_toDoc m.2 hm]; rfl
    simp only [memberDocs, findKind, if_neg hkey, if_pos hvalue]
    exact ih hkeys hdepth

theorem withoutKind_memberDocs {members : List (String × Json)}
    (hkeys : ∀ m ∈ members, m.1 ≠ kindKey) :
    withoutKind (memberDocs members) = memberDocs members := by
  refine List.filter_eq_self.mpr fun member hmember => ?_
  rw [Json.memberDocs_eq_map] at hmember
  obtain ⟨m, hm, rfl⟩ := List.mem_map.mp hmember
  simpa using hkeys m hm

/-- An object that starts with its kind is read as a record of that kind. -/
theorem decode_tagged {tag : String} {kind : Kind} {members : List (String × Json)}
    (htag : Wire.choose Kind.names tag = .ok kind) (hkeys : ∀ m ∈ members, m.1 ≠ kindKey)
    (hdepth : ∀ m ∈ members, m.2.depth ≤ room) :
    decode (room + 1) (Json.object ((kindKey, .string tag) :: members)).toDoc =
      ofMembers room (memberDocs members) kind := by
  have hkind : findKind room none (memberDocs ((kindKey, .string tag) :: members)) =
      .ok (some kind) := by
    simp only [memberDocs, Json.toDoc, findKind, if_true, Kind.ofDoc, htag]
    exact findKind_memberDocs hkeys hdepth
  have hrest : withoutKind (memberDocs ((kindKey, .string tag) :: members)) =
      memberDocs members := by
    rw [memberDocs, withoutKind, List.filter_cons_of_neg (by simp)]
    exact withoutKind_memberDocs hkeys
  rw [Json.toDoc, decode, hkind]
  simp only [hrest]
  rfl

/-- No field of a record is a kind. -/
theorem ne_kindKey_of_mem_toMembers {fields : List Field} {row : Row fields}
    (h : ∀ f ∈ fields, f.name ≠ kindKey) {m : String × Json} (hm : m ∈ row.toMembers fields) :
    m.1 ≠ kindKey := by
  obtain ⟨f, hf, hname⟩ := Row.exists_field_of_mem_toMembers hm
  exact hname ▸ h f hf

/-- An entry makes the round trip if the record of its kind does. -/
theorem roundTrips_of_layout {α : Type} {l : Layout α} {x : α} {tag : String} {kind : Kind}
    {entry : Entry} (hjson : toJson entry = .object ((kindKey, .string tag) :: l.toMembers x))
    (htag : Wire.choose Kind.names tag = .ok kind) (hnames : ∀ f ∈ l.fields, f.name ≠ kindKey)
    (hrow : Row.RoundTrips room l.fields (l.toRow x))
    (hread : ofMembers room (memberDocs (l.toMembers x)) kind = .ok entry) :
    Wire.RoundTrips (room + 1) entry := by
  have hmembers : ∀ m ∈ l.toMembers x, m.2.isIntegral ∧ m.2.depth ≤ room := fun _ =>
    Row.toMembers_of_roundTrips hrow
  have hkeys : ∀ m ∈ l.toMembers x, m.1 ≠ kindKey := fun _ => ne_kindKey_of_mem_toMembers hnames
  refine ⟨?_, ?_, ?_⟩
  · show (toJson entry).isIntegral
    rw [hjson]
    exact Json.everywhere_object.mpr
      ⟨rfl, List.forall_mem_cons.mpr ⟨rfl, fun m hm => (hmembers m hm).1⟩⟩
  · show (toJson entry).depth ≤ room + 1
    rw [hjson]
    exact Json.depth_object_le_succ_iff.mpr
      (List.forall_mem_cons.mpr ⟨Nat.zero_le room, fun m hm => (hmembers m hm).2⟩)
  · show decode (room + 1) (toJson entry).toDoc = .ok entry
    rw [hjson, decode_tagged htag hkeys fun m hm => (hmembers m hm).2, hread]

theorem roundTrips {e : Entry} (h : e.Portable) (hroom : payloadRoom ≤ room) :
    Wire.RoundTrips (room + 1) e := by
  cases e with
  | message m =>
    have hrow := Message.row_roundTrips h hroom
    refine roundTrips_of_layout (l := Message.layout) rfl
      (show Wire.choose Kind.names "message" = .ok .message from rfl)
      (by simp [kindKey]) hrow ?_
    rw [ofMembers, Layout.ofMembers_memberDocs Message.lawful hrow]
    rfl
  | device d =>
    have hrow := DeviceStatus.row_roundTrips h room
    refine roundTrips_of_layout (l := DeviceStatus.layout) rfl
      (show Wire.choose Kind.names "node_status" = .ok .device from rfl)
      (by simp [kindKey]) hrow ?_
    rw [ofMembers, Layout.ofMembers_memberDocs DeviceStatus.lawful hrow]
    rfl
  | membership u =>
    have hrow := Membership.row_roundTrips h room
    refine roundTrips_of_layout (l := Membership.layout) rfl
      (show Wire.choose Kind.names "user_status" = .ok .membership from rfl)
      (by simp [kindKey]) hrow ?_
    rw [ofMembers, Layout.ofMembers_memberDocs Membership.lawful hrow]
    rfl

end Entry

theorem Message.roundTrips {m : Message} (h : m.Portable) (hroom : payloadRoom ≤ room) :
    RoundTrips (room + 1) m :=
  Layout.roundTrips lawful (row_roundTrips h hroom)

theorem DeviceStatus.roundTrips {d : DeviceStatus} (h : d.Portable) (room : Nat) :
    RoundTrips (room + 1) d :=
  Layout.roundTrips lawful (row_roundTrips h room)

theorem Membership.roundTrips {u : Membership} (h : u.Portable) (room : Nat) :
    RoundTrips (room + 1) u :=
  Layout.roundTrips lawful (row_roundTrips h room)

end

/-! ## Pages, requests, bounds and views -/

def Page.Portable (p : Page) : Prop := p.number < countLimit ∧ ∀ e ∈ p.entries, e.Portable

def Anchor.Portable : Anchor → Prop
  | .message _ => True
  | .number n => n < countLimit

def PageRequest.Portable (r : PageRequest) : Prop := r.anchor.Portable

def Bounds.Portable (b : Bounds) : Prop :=
  b.capacity < countLimit ∧ ∀ n ∈ b.givenThreshold, n < countLimit

def View.Portable (v : View) : Prop := ∀ e ∈ v.entries, e.Portable

instance (p : Page) : Decidable p.Portable := inferInstanceAs (Decidable (_ ∧ _))

instance : DecidablePred Anchor.Portable
  | .message _ => inferInstanceAs (Decidable True)
  | .number n => inferInstanceAs (Decidable (n < countLimit))

instance (r : PageRequest) : Decidable r.Portable := inferInstanceAs (Decidable r.anchor.Portable)

instance (b : Bounds) : Decidable b.Portable := inferInstanceAs (Decidable (_ ∧ _))

instance (v : View) : Decidable v.Portable := inferInstanceAs (Decidable (∀ e ∈ v.entries, _))

section

open Wire

theorem Page.lawful : layout.Lawful :=
  ⟨by simp [Field.Distinct, Field.answersTo], fun _ => rfl⟩

theorem Page.roundTrips {p : Page} (h : p.Portable) : RoundTrips Doc.depthLimit p := by
  obtain ⟨hnumber, hentries⟩ := h
  refine Layout.roundTrips lawful ?_
  exact ⟨roundTrips_list fun e he => Entry.roundTrips (hentries e he) (Nat.le_refl payloadRoom),
    roundTrips_nat _ hnumber, roundTrips_bool _ p.isOldest, roundTrips_bool _ p.isNewest, trivial⟩

theorem Direction.roundTrips (room : Nat) (d : Direction) : RoundTrips room d := by
  cases d <;> exact ⟨rfl, Nat.zero_le room, rfl⟩

theorem Mode.roundTrips (room : Nat) (m : Mode) : RoundTrips room m := by
  cases m <;> exact ⟨rfl, Nat.zero_le room, rfl⟩

theorem Anchor.roundTrips {a : Anchor} (h : a.Portable) (room : Nat) : RoundTrips (room + 1) a := by
  cases a with
  | message id => exact ⟨rfl, Nat.le_add_left 1 room, rfl⟩
  | number n =>
    have hn := roundTrips_nat room h
    refine ⟨?_, Nat.le_add_left 1 room, rfl⟩
    exact Json.everywhere_object.mpr ⟨rfl, List.forall_mem_singleton.mpr hn.isIntegral⟩

theorem PageRequest.lawful : layout.Lawful :=
  ⟨by simp [Field.Distinct, Field.answersTo], fun _ => rfl⟩

theorem PageRequest.roundTrips {r : PageRequest} (h : r.Portable) (room : Nat) :
    RoundTrips (room + 2) r :=
  Layout.roundTrips lawful
    ⟨Anchor.roundTrips h room, Direction.roundTrips _ r.direction, trivial⟩

theorem Bounds.lawful : layout.Lawful :=
  ⟨by simp [Field.Distinct, Field.answersTo], fun _ => rfl⟩

theorem Bounds.roundTrips {b : Bounds} (h : b.Portable) (room : Nat) : RoundTrips (room + 1) b := by
  obtain ⟨hcapacity, hthreshold⟩ := h
  refine Layout.roundTrips lawful
    ⟨roundTrips_nat room hcapacity, ?_, trivial⟩
  -- A threshold that is not given is left out, and is what is read then.
  cases hgiven : b.givenThreshold with
  | none => rfl
  | some n => exact RoundTrips.some (roundTrips_nat room (hthreshold n hgiven)) nofun

theorem View.lawful : layout.Lawful :=
  ⟨by simp [Field.Distinct, Field.answersTo], fun _ => rfl⟩

theorem View.roundTrips {v : View} (h : v.Portable) : RoundTrips Doc.depthLimit v :=
  Layout.roundTrips lawful
    ⟨roundTrips_string _ v.poolId, Mode.roundTrips _ v.mode,
      roundTrips_list fun e he => Entry.roundTrips (h e he) (Nat.le_refl payloadRoom),
      roundTrips_bool _ v.canGoOlder, roundTrips_bool _ v.canGoNewer, trivial⟩

end

/-! ## The whole format -/

/-- **Decoding undoes encoding**, for every type of the wire format. -/
theorem Wire.decodeText_encode :
    (∀ e : Entry, e.Portable → decodeText (encode e) = .ok e) ∧
    (∀ m : Message, m.Portable → decodeText (encode m) = .ok m) ∧
    (∀ d : DeviceStatus, d.Portable → decodeText (encode d) = .ok d) ∧
    (∀ u : Membership, u.Portable → decodeText (encode u) = .ok u) ∧
    (∀ p : Page, p.Portable → decodeText (encode p) = .ok p) ∧
    (∀ d : Direction, decodeText (encode d) = .ok d) ∧
    (∀ a : Anchor, a.Portable → decodeText (encode a) = .ok a) ∧
    (∀ r : PageRequest, r.Portable → decodeText (encode r) = .ok r) ∧
    (∀ b : Bounds, b.Portable → decodeText (encode b) = .ok b) ∧
    (∀ m : Mode, decodeText (encode m) = .ok m) ∧
    (∀ v : View, v.Portable → decodeText (encode v) = .ok v) := by
  have hroom : payloadRoom ≤ Doc.depthLimit - 1 := by decide
  exact ⟨fun _ h => (Entry.roundTrips h hroom).decodeText_eq,
    fun _ h => (Message.roundTrips h hroom).decodeText_eq,
    fun _ h => (DeviceStatus.roundTrips h _).decodeText_eq,
    fun _ h => (Membership.roundTrips h _).decodeText_eq,
    fun _ h => (Page.roundTrips h).decodeText_eq,
    fun d => (Direction.roundTrips _ d).decodeText_eq,
    fun _ h => (Anchor.roundTrips h _).decodeText_eq,
    fun _ h => (PageRequest.roundTrips h _).decodeText_eq,
    fun _ h => (Bounds.roundTrips h _).decodeText_eq,
    fun m => (Mode.roundTrips _ m).decodeText_eq,
    fun _ h => (View.roundTrips h).decodeText_eq⟩

/-- Entries of all kinds, with the largest counts, characters of all sorts, and a payload in which
the least integer stands two levels deep. -/
def manifoldEntries : List Entry :=
  [.message ⟨"m\"1\\", "al\x01ice\n", 18446744073709551615,
      .object [("", .array [.null, .number (.int (-9223372036854775808)), .array []]),
        ("é😀", .object [("a", .bool false), ("b", .string "\t/")])]⟩,
    .device ⟨"d1", "bob", 0, true⟩,
    .membership ⟨"😀", 1700000000000, false⟩]

theorem Wire.decodeText_encode_manifold :
    decodeText (encode (Page.mk 18446744073709551615 manifoldEntries false true)) =
        .ok (Page.mk 18446744073709551615 manifoldEntries false true) ∧
      decodeText (encode (View.mk "pool" .history manifoldEntries true false)) =
        .ok (View.mk "pool" .history manifoldEntries true false) ∧
      decodeText (encode (PageRequest.mk (.number 7) .newer)) =
        .ok (PageRequest.mk (.number 7) .newer) ∧
      decodeText (encode (Bounds.mk 50 (some 0))) = .ok (Bounds.mk 50 (some 0)) := by
  obtain ⟨-, -, -, -, hpage, -, -, hrequest, hbounds, -, hview⟩ := decodeText_encode
  exact ⟨hpage _ (by decide +kernel), hview _ (by decide +kernel), hrequest _ (by decide +kernel),
    hbounds _ (by decide +kernel)⟩

end Timeline
