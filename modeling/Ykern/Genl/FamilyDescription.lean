import Ykern.Genl.FamilyMessage

/-!
# Descriptions of families

A family is described by its name, its numbers, its operations and its multicast
groups. A list of attributes encodes a description when it has one attribute for each
field, in any order and among any attributes of other types
(`FamilyDescription.Encodes`); the elements of the nests are encoded alike. A nest
without elements may be left out.

The program appends the described family for every such message
(`processFamilyMsg_describes`). Each field is found by itself, because a loop over the
attributes leaves it alone except at the attributes of its type.
-/

set_option autoImplicit false

namespace Ykern.Genl

open Overlay Netlink

/-! ## Encodings -/

/-- The description of a family. -/
structure FamilyDescription where
  name : CStr
  id : UInt16
  version : UInt32
  hdrsize : UInt32
  maxattr : UInt32
  ops : List OpInfo
  groups : List McastInfo
  nameFree : (0 : UInt8) ∉ name
  nameLength : 1 ≤ name.length ∧ name.length ≤ 16
  groupNames : ∀ g ∈ groups, ∀ name, g.name = some name → name ≠ [] ∧ (0 : UInt8) ∉ name

/-- The attributes of a type. -/
def ofType (type : UInt16) (f : Bytes) : Bool := attrType f == type

/-- The attributes in an element describe an operation. -/
def DescribesOp (info : OpInfo) (f : Bytes) : Prop :=
  ∃ subs, Framing.Packs nla subs (payload f) ∧
    subs.filter (ofType ctrlAttrOpId) = [attr ctrlAttrOpId (bytes32 info.id)] ∧
    subs.filter (ofType ctrlAttrOpFlags) = [attr ctrlAttrOpFlags (bytes32 info.flags)]

/-- The attributes that hold the name of a group, with or without a NUL at its end. -/
inductive GroupNameAttrs : Option CStr → List Bytes → Prop where
  | absent : GroupNameAttrs none []
  | plain (name : CStr) : GroupNameAttrs (some name) [attr ctrlAttrMcastGrpName name]
  | terminated (name : CStr) :
      GroupNameAttrs (some name) [attr ctrlAttrMcastGrpName (name ++ [0])]

/-- The attributes in an element describe a multicast group. -/
def DescribesGroup (info : McastInfo) (f : Bytes) : Prop :=
  ∃ subs, Framing.Packs nla subs (payload f) ∧
    subs.filter (ofType ctrlAttrMcastGrpId) = [attr ctrlAttrMcastGrpId (bytes32 info.id)] ∧
    GroupNameAttrs info.name (subs.filter (ofType ctrlAttrMcastGrpName))

/-- The attributes that hold a list of items, with an element for each. -/
inductive NestOf {β : Type} (element : β → Bytes → Prop) : List β → List Bytes → Prop where
  | absent : NestOf element [] []
  | nest {items : List β} {elems : List Bytes} {f : Bytes}
      (packs : Framing.Packs nla elems (payload f)) (each : List.Forall₂ element items elems) :
      NestOf element items [f]

/-- The attributes encode the description, in any order and among any others. The nests
may be flagged as such or not. -/
structure FamilyDescription.Encodes (d : FamilyDescription) (top : List Bytes) : Prop where
  name : top.filter (ofType ctrlAttrFamilyName) = [attr ctrlAttrFamilyName (d.name ++ [0])]
  id : top.filter (ofType ctrlAttrFamilyId) = [attr ctrlAttrFamilyId (bytes16 d.id)]
  version : top.filter (ofType ctrlAttrVersion) = [attr ctrlAttrVersion (bytes32 d.version)]
  hdrsize : top.filter (ofType ctrlAttrHdrsize) = [attr ctrlAttrHdrsize (bytes32 d.hdrsize)]
  maxattr : top.filter (ofType ctrlAttrMaxattr) = [attr ctrlAttrMaxattr (bytes32 d.maxattr)]
  ops : NestOf DescribesOp d.ops (top.filter (ofType ctrlAttrOps))
  groups : NestOf DescribesGroup d.groups (top.filter (ofType ctrlAttrMcastGroups))

/-- The family that is described, with its overlay. -/
def FamilyDescription.family (d : FamilyDescription) (overlay : Option FamilyOverlay) : Family :=
  ⟨d.name, d.id, d.version, d.hdrsize, d.maxattr, d.ops, d.groups, overlay⟩

/-! ## Fields -/

theorem attrType_ne_of_ofType {type : UInt16} {f : Bytes} (other : ofType type f = false) :
    attrType f ≠ type := by
  simpa [ofType] using other

theorem take32_attr {type : UInt16} (plain : type &&& nlaTypeMask = type) (w v : UInt32) :
    take32 type w (attr type (bytes32 v)) = v := by
  rw [take32, attrType_attr, payload_attr, if_pos ⟨plain, le_refl 4⟩]
  exact word32_bytes32 v

/-- A number that is given once is found. -/
theorem field_of_only32 {σ : Type} (proj : σ → UInt32) (step : σ → Bytes → σ) {type : UInt16}
    (takes : ∀ s f, proj (step s f) = take32 type (proj s) f)
    (plain : type &&& nlaTypeMask = type) {fs : List Bytes} {v : UInt32}
    (only : fs.filter (ofType type) = [attr type (bytes32 v)]) (s : σ) :
    proj (fs.foldl step s) = v := by
  have leaves : ∀ s f, ofType type f = false → proj (step s f) = proj s := by
    intro s f other
    rw [takes, take32, if_neg fun found => attrType_ne_of_ofType other found.1]
  rw [proj_foldl (fun s f _ => takes s f) leaves s fs, only]
  exact take32_attr plain (proj s) v

/-- A nest that is given once, or left out when it is empty, is found. -/
theorem field_of_nestOf {σ β : Type} (proj : σ → List β) (step : σ → Bytes → σ) {type : UInt16}
    {take : β → Bytes → β} {zero : β} {element : β → Bytes → Prop}
    (takes : ∀ s f, proj (step s f) = takeNest type take zero (proj s) f)
    {items : List β} {fs : List Bytes} (nest : NestOf element items (fs.filter (ofType type)))
    (each : ∀ item ∈ items, ∀ f, element item f → (nla.frames (payload f)).foldl take zero = item)
    {s : σ} (empty : proj s = []) : proj (fs.foldl step s) = items := by
  have leaves : ∀ s f, ofType type f = false → proj (step s f) = proj s := by
    intro s f other
    rw [takes, takeNest, if_neg (attrType_ne_of_ofType other)]
  rw [proj_foldl (fun s f _ => takes s f) leaves s fs]
  generalize among : fs.filter (ofType type) = found at nest
  cases nest with
  | absent => exact empty
  | @nest _ elems f packs described =>
      have isNest : attrType f = type := by
        have member : f ∈ fs.filter (ofType type) := by rw [among]; simp
        simpa [ofType] using (List.mem_filter.mp member).2
      show takeNest type take zero (proj s) f = items
      rw [takeNest, if_pos isNest, nestItems, packs.frames_eq]
      clear among packs isNest
      induction described with
      | nil => rfl
      | cons first rest ih =>
          rw [List.map_cons, ih fun item member => each item (List.mem_cons_of_mem _ member),
            each _ List.mem_cons_self _ first]

/-! ## Elements -/

theorem op_of_describes {info : OpInfo} {f : Bytes} (describes : DescribesOp info f) :
    (nla.frames (payload f)).foldl OpInfo.take ⟨0, 0⟩ = info := by
  obtain ⟨subs, packs, id, flags⟩ := describes
  rw [packs.frames_eq]
  have foundId := field_of_only32 OpInfo.id OpInfo.take (fun _ _ => rfl) (by decide) id ⟨0, 0⟩
  have foundFlags :=
    field_of_only32 OpInfo.flags OpInfo.take (fun _ _ => rfl) (by decide) flags ⟨0, 0⟩
  calc subs.foldl OpInfo.take ⟨0, 0⟩
      = ⟨(subs.foldl OpInfo.take ⟨0, 0⟩).id, (subs.foldl OpInfo.take ⟨0, 0⟩).flags⟩ := rfl
    _ = info := by rw [foundId, foundFlags]

/-- The name of a group is found with or without a NUL. -/
theorem groupName_of_attrs {name : Option CStr} {fs : List Bytes}
    (attrs : GroupNameAttrs name (fs.filter (ofType ctrlAttrMcastGrpName)))
    (wellFormed : ∀ n, name = some n → n ≠ [] ∧ (0 : UInt8) ∉ n) (id : UInt32) :
    (fs.foldl McastInfo.take ⟨id, none⟩).name = name := by
  have leaves : ∀ (grp : McastInfo) (f : Bytes), ofType ctrlAttrMcastGrpName f = false →
      (grp.take f).name = grp.name := by
    intro grp f other
    show takeGroupName grp.name f = grp.name
    rw [takeGroupName, if_neg fun found => attrType_ne_of_ofType other found.1]
  rw [proj_foldl (fun (grp : McastInfo) f _ => show (grp.take f).name = takeGroupName grp.name f
    from rfl) leaves ⟨id, none⟩ fs]
  have plain : ctrlAttrMcastGrpName &&& nlaTypeMask = ctrlAttrMcastGrpName := by decide
  generalize fs.filter (ofType ctrlAttrMcastGrpName) = found at attrs
  cases attrs with
  | absent => rfl
  | plain n =>
      obtain ⟨nonempty, free⟩ := wellFormed n rfl
      show takeGroupName none (attr ctrlAttrMcastGrpName n) = some n
      rw [takeGroupName, attrType_attr, payload_attr,
        if_pos ⟨plain, List.length_pos_iff.mpr nonempty⟩, cString_eq_self free]
  | terminated n =>
      obtain ⟨nonempty, free⟩ := wellFormed n rfl
      show takeGroupName none (attr ctrlAttrMcastGrpName (n ++ [0])) = some n
      rw [takeGroupName, attrType_attr, payload_attr, if_pos ⟨plain, by simp⟩, cString_concat_nul,
        cString_eq_self free]

theorem group_of_describes {info : McastInfo} {f : Bytes} (describes : DescribesGroup info f)
    (wellFormed : ∀ n, info.name = some n → n ≠ [] ∧ (0 : UInt8) ∉ n) :
    (nla.frames (payload f)).foldl McastInfo.take ⟨0, none⟩ = info := by
  obtain ⟨subs, packs, id, name⟩ := describes
  rw [packs.frames_eq]
  have foundId := field_of_only32 McastInfo.id McastInfo.take (fun _ _ => rfl) (by decide) id ⟨0, none⟩
  have foundName := groupName_of_attrs name wellFormed 0
  calc subs.foldl McastInfo.take ⟨0, none⟩
      = ⟨(subs.foldl McastInfo.take ⟨0, none⟩).id, (subs.foldl McastInfo.take ⟨0, none⟩).name⟩ := rfl
    _ = info := by rw [foundId, foundName]

/-! ## Families -/

/-- A name of up to 16 bytes fits the buffer with its NUL. -/
theorem cString_copyName {name : CStr} (free : (0 : UInt8) ∉ name) (short : name.length ≤ 16) :
    cString (copyName (List.replicate 17 0) (name ++ [0])) = name := by
  obtain ⟨more, same⟩ : ∃ more, copyName (List.replicate 17 0) (name ++ [0]) = name ++ 0 :: more := by
    unfold copyName
    rw [List.append_assoc, List.set_append_right _ _ short, List.singleton_append]
    cases index : 16 - name.length with
    | zero => exact ⟨_, rfl⟩
    | succ k => exact ⟨_, rfl⟩
  rw [same, cString_append_nul free]

variable {d : FamilyDescription} {top : List Bytes}

theorem name_of_encodes (encodes : d.Encodes top) :
    cString (top.foldl FamilyLocals.take .zero).name.1 = d.name ∧
      (top.foldl FamilyLocals.take .zero).name.2 = true := by
  have leaves : ∀ (l : FamilyLocals) (f : Bytes), ofType ctrlAttrFamilyName f = false →
      (l.take f).name = l.name := by
    intro l f other
    show takeName l.name f = l.name
    rw [takeName, if_neg fun found => attrType_ne_of_ofType other found.1]
  rw [proj_foldl (fun (l : FamilyLocals) f _ => show (l.take f).name = takeName l.name f from rfl)
    leaves .zero top, encodes.name]
  show cString (takeName FamilyLocals.zero.name _).1 = d.name ∧ (takeName _ _).2 = true
  have bounds := d.nameLength
  rw [takeName, attrType_attr, payload_attr, if_pos ⟨by decide, by simp, by simp; omega⟩]
  exact ⟨cString_copyName d.nameFree bounds.2, rfl⟩

theorem id_of_encodes (encodes : d.Encodes top) :
    (top.foldl FamilyLocals.take .zero).id = (d.id, true) := by
  have leaves : ∀ (l : FamilyLocals) (f : Bytes), ofType ctrlAttrFamilyId f = false →
      (l.take f).id = l.id := by
    intro l f other
    show takeId l.id f = l.id
    rw [takeId, if_neg fun found => attrType_ne_of_ofType other found.1]
  rw [proj_foldl (fun (l : FamilyLocals) f _ => show (l.take f).id = takeId l.id f from rfl)
    leaves .zero top, encodes.id]
  show takeId FamilyLocals.zero.id (attr ctrlAttrFamilyId (bytes16 d.id)) = (d.id, true)
  rw [takeId, attrType_attr, payload_attr, if_pos ⟨by decide, le_refl 2⟩]
  exact congrArg (·, true) (word16_bytes16 d.id)

/-- The locals after the loop hold the description. -/
theorem family_of_encodes (base : CStr) (files : CStr → OverlayFile) (encodes : d.Encodes top) :
    (top.foldl FamilyLocals.take .zero).family base files =
      d.family (familyOverlay base files d.name) := by
  have version := field_of_only32 FamilyLocals.version FamilyLocals.take (fun _ _ => rfl) (by decide)
    encodes.version .zero
  have hdrsize := field_of_only32 FamilyLocals.hdrsize FamilyLocals.take (fun _ _ => rfl) (by decide)
    encodes.hdrsize .zero
  have maxattr := field_of_only32 FamilyLocals.maxattr FamilyLocals.take (fun _ _ => rfl) (by decide)
    encodes.maxattr .zero
  have ops := field_of_nestOf FamilyLocals.ops FamilyLocals.take (fun _ _ => rfl) encodes.ops
    (fun info _ f describes => op_of_describes describes) (s := .zero) rfl
  have groups := field_of_nestOf FamilyLocals.grps FamilyLocals.take (fun _ _ => rfl) encodes.groups
    (fun info member f describes => group_of_describes describes (d.groupNames info member))
    (s := .zero) rfl
  simp only [FamilyLocals.family, FamilyDescription.family, (name_of_encodes encodes).1,
    id_of_encodes encodes, version, hdrsize, maxattr, ops, groups]

/-- **One family is appended, and it is the one the message describes**, for every order
of the attributes and with any attributes of unknown types among them, whatever else the
headers of the message say. -/
theorem processFamilyMsg_describes (base : CStr) (files : CStr → OverlayFile)
    (d : FamilyDescription) {top : List Bytes} (encodes : d.Encodes top) {m : Bytes}
    (isFrame : nlmsg.IsFrame m) (long : 20 ≤ m.length) (short : m.length < 2 ^ 31)
    (cmd : msgCmd m = ctrlCmdNewfamily) (packs : Framing.Packs nla top (msgAttrs m)) (mem : Mem)
    (p : Nat) (children : List Family) :
    processFamilyMsg base files (mem.place m p) p children =
      .ok (children ++ [d.family (familyOverlay base files d.name)]) := by
  have declared := Framing.declaredAt_place nlmsg mem isFrame p
  rw [processFamilyMsg_eq base files (by rw [declared]; exact long) (by rw [declared]; exact short),
    Framing.recordAt_place nlmsg mem isFrame]
  have locals : familyLocals m = top.foldl FamilyLocals.take .zero := by
    rw [familyLocals, packs.frames_eq]
  rw [familyOf, locals, cmd, if_pos ⟨rfl, (name_of_encodes encodes).2, by rw [id_of_encodes encodes]⟩,
    family_of_encodes base files encodes, Option.toList_some]

/-- The description of the control family, with one operation and one group. -/
def nlctrlDescription : FamilyDescription where
  name := lit "nlctrl"
  id := 16
  version := 2
  hdrsize := 0
  maxattr := 10
  ops := [⟨3, 14⟩]
  groups := [⟨16, some (lit "notify")⟩]
  nameFree := by decide
  nameLength := by decide
  groupNames := by
    intro g member name same
    obtain rfl := List.mem_singleton.mp member
    obtain rfl := Option.some.inj same
    decide

/-- The element of the operation. -/
def nlctrlOp : List Bytes :=
  [attr ctrlAttrOpFlags (bytes32 14), attr 77 (lit "ignored"), attr ctrlAttrOpId (bytes32 3)]

/-- The element of the group. -/
def nlctrlGroup : List Bytes :=
  [attr ctrlAttrMcastGrpName (lit "notify" ++ [0]), attr ctrlAttrMcastGrpId (bytes32 16)]

/-- Its attributes, in another order, with unknown ones among them. -/
def nlctrlAttrs : List Bytes :=
  [attr 900 (lit "?"),
    attr (ctrlAttrOps ||| nlaFNested)
      (Framing.encode [attr (1 ||| nlaFNested) (Framing.encode nlctrlOp)]),
    attr ctrlAttrMaxattr (bytes32 10), attr ctrlAttrVersion (bytes32 2),
    attr ctrlAttrMcastGroups (Framing.encode [attr 1 (Framing.encode nlctrlGroup)]),
    attr ctrlAttrFamilyId (bytes16 16), attr 8 [],
    attr ctrlAttrFamilyName (lit "nlctrl" ++ [0]), attr ctrlAttrHdrsize (bytes32 0)]

theorem nlctrlAttrs_encodes : nlctrlDescription.Encodes nlctrlAttrs where
  name := by decide
  id := by decide
  version := by decide
  hdrsize := by decide
  maxattr := by decide
  ops := by
    have found : nlctrlAttrs.filter (ofType ctrlAttrOps) = [attr (ctrlAttrOps ||| nlaFNested)
        (Framing.encode [attr (1 ||| nlaFNested) (Framing.encode nlctrlOp)])] := by decide
    rw [found]
    exact .nest (Framing.packs_encode (by decide)) (.cons
      ⟨nlctrlOp, Framing.packs_encode (by decide), by decide, by decide⟩ .nil)
  groups := by
    have found : nlctrlAttrs.filter (ofType ctrlAttrMcastGroups) =
        [attr ctrlAttrMcastGroups (Framing.encode [attr 1 (Framing.encode nlctrlGroup)])] := by decide
    rw [found]
    exact .nest (Framing.packs_encode (by decide)) (.cons
      ⟨nlctrlGroup, Framing.packs_encode (by decide), by decide, .terminated (lit "notify")⟩ .nil)

/-- The message that describes the control family, to the port 4711 and with something in the
bytes of the header that are reserved. -/
def nlctrlMessage : Bytes :=
  msgAt 16 2 1 4711 ([ctrlCmdNewfamily, 2, 7, 7] ++ Framing.encode nlctrlAttrs)

theorem nlctrlMessage_isFrame : nlmsg.IsFrame nlctrlMessage :=
  msg_isFrame (by decide +kernel)

/-- The message is parsed to the control family. -/
theorem processFamilyMsg_nlctrl :
    processFamilyMsg [] (fun _ => .absent) (Mem.place (fun _ => 0) nlctrlMessage 0) 0 [] =
      .ok [nlctrlDescription.family (familyOverlay [] (fun _ => .absent) (lit "nlctrl"))] :=
  processFamilyMsg_describes [] (fun _ => .absent) nlctrlDescription nlctrlAttrs_encodes
    nlctrlMessage_isFrame (by decide +kernel) (by decide +kernel) rfl
    (Framing.packs_encode (by decide)) (fun _ => 0) 0 []

end Ykern.Genl
