import Ykern.Foundation.Loops
import Ykern.Genl.Nodes
import Ykern.Netlink.Wire

/-!
# Parsing the description of a family

The kernel describes a family in a message of attributes: its name, its numbers, and
two nests with an element for each operation and for each multicast group. The
program walks the attributes and the nests in memory and appends a family node
(`processFamilyMsg`). What it appends depends only on the bytes of the message
(`processFamilyMsg_eq`): one family when the message has a name and an identifier
(`familyOf`), and nothing otherwise.
-/

set_option autoImplicit false

namespace Ykern.Genl

open Overlay Netlink

/-! ## Types of attributes -/

/-- `CTRL_CMD_NEWFAMILY`. -/
def ctrlCmdNewfamily : UInt8 := 1

/-- `CTRL_ATTR_*`. -/
@[simp] def ctrlAttrFamilyId : UInt16 := 1

@[inherit_doc ctrlAttrFamilyId, simp]
def ctrlAttrFamilyName : UInt16 := 2

@[inherit_doc ctrlAttrFamilyId, simp]
def ctrlAttrVersion : UInt16 := 3

@[inherit_doc ctrlAttrFamilyId, simp]
def ctrlAttrHdrsize : UInt16 := 4

@[inherit_doc ctrlAttrFamilyId, simp]
def ctrlAttrMaxattr : UInt16 := 5

@[inherit_doc ctrlAttrFamilyId, simp]
def ctrlAttrOps : UInt16 := 6

@[inherit_doc ctrlAttrFamilyId, simp]
def ctrlAttrMcastGroups : UInt16 := 7

/-- `CTRL_ATTR_OP_*`. -/
@[simp] def ctrlAttrOpId : UInt16 := 1

@[inherit_doc ctrlAttrOpId, simp]
def ctrlAttrOpFlags : UInt16 := 2

/-- `CTRL_ATTR_MCAST_GRP_*`. -/
@[simp] def ctrlAttrMcastGrpName : UInt16 := 1

@[inherit_doc ctrlAttrMcastGrpName, simp]
def ctrlAttrMcastGrpId : UInt16 := 2

/-! ## The program -/

/-- The type of the attribute at an address. -/
def nlaTypeAt (mem : Mem) (na : Nat) : UInt16 := rawTypeAt mem na &&& nlaTypeMask

/-- `NLA_PAYLOAD` of the attribute at an address. -/
def nlaPayloadAt (mem : Mem) (na : Nat) : Nat := nla.declaredAt mem na - 4

/-- What `parse_ops_attr` and `parse_mcast_attr` have in common: count the elements of a
nest, and fill an array of that length with what their attributes say. -/
def parseNest {β : Type} (attr : β → Nat → β) (zero : β) (mem : Mem) (outer : Nat) : List β :=
  if (nla.declaredAt mem outer - 4 : Int) ≤ 0 then []
  else
    countAndFill
      (fun item cur => (nla.walk mem (cur + 4) (nla.declaredAt mem cur - 4)).foldl attr item)
      zero (nla.walk mem (outer + 4) (nla.declaredAt mem outer - 4))

/-- The loop over the attributes of an operation. -/
def opAttr (mem : Mem) (op : OpInfo) (sub : Nat) : OpInfo :=
  if nlaTypeAt mem sub = ctrlAttrOpId ∧ 4 ≤ nlaPayloadAt mem sub then
    { op with id := mem.load32 (sub + 4) }
  else if nlaTypeAt mem sub = ctrlAttrOpFlags ∧ 4 ≤ nlaPayloadAt mem sub then
    { op with flags := mem.load32 (sub + 4) }
  else op

/-- `parse_ops_attr`. -/
def parseOpsAttr (mem : Mem) (outer : Nat) : List OpInfo :=
  parseNest (opAttr mem) ⟨0, 0⟩ mem outer

/-- The loop over the attributes of a multicast group. -/
def mcastAttr (mem : Mem) (grp : McastInfo) (sub : Nat) : McastInfo :=
  if nlaTypeAt mem sub = ctrlAttrMcastGrpId ∧ 4 ≤ nlaPayloadAt mem sub then
    { grp with id := mem.load32 (sub + 4) }
  else if nlaTypeAt mem sub = ctrlAttrMcastGrpName then
    let plen := nlaPayloadAt mem sub
    if 0 < plen then { grp with name := some (cString (mem.slice (sub + 4) plen)) }
    else grp
  else grp

/-- `parse_mcast_attr`. -/
def parseMcastAttr (mem : Mem) (outer : Nat) : List McastInfo :=
  parseNest (mcastAttr mem) ⟨0, none⟩ mem outer

/-- The locals of `process_family_msg`. The name is in a buffer of 17 bytes. -/
structure FamilyLocals where
  name : Bytes × Bool
  id : UInt16 × Bool
  version : UInt32
  hdrsize : UInt32
  maxattr : UInt32
  ops : List OpInfo
  grps : List McastInfo

/-- The locals before the loop. -/
def FamilyLocals.zero : FamilyLocals := ⟨(List.replicate 17 0, false), (0, false), 0, 0, 0, [], []⟩

/-- Copy to the front of the name buffer, and terminate it. -/
def copyName (buf data : Bytes) : Bytes := (data ++ buf.drop data.length).set 16 0

/-- The body of the loop of `process_family_msg`. Each flag says that its value was
there. -/
def familyAttr (mem : Mem) (l : FamilyLocals) (na : Nat) : FamilyLocals :=
  let type := nlaTypeAt mem na
  let plen := nlaPayloadAt mem na
  if type = ctrlAttrFamilyName then
    if 0 < plen ∧ plen ≤ 17 then
      { l with name := (copyName l.name.1 (mem.slice (na + 4) plen), true) }
    else l
  else if type = ctrlAttrFamilyId then
    if 2 ≤ plen then { l with id := (mem.load16 (na + 4), true) } else l
  else if type = ctrlAttrVersion then
    if 4 ≤ plen then { l with version := mem.load32 (na + 4) } else l
  else if type = ctrlAttrHdrsize then
    if 4 ≤ plen then { l with hdrsize := mem.load32 (na + 4) } else l
  else if type = ctrlAttrMaxattr then
    if 4 ≤ plen then { l with maxattr := mem.load32 (na + 4) } else l
  else if type = ctrlAttrOps then { l with ops := parseOpsAttr mem na }
  else if type = ctrlAttrMcastGroups then { l with grps := parseMcastAttr mem na }
  else l

/-- The overlay of a family. A file that cannot be loaded is a warning. -/
def familyOverlay (base : CStr) (files : CStr → OverlayFile) (name : CStr) : Option FamilyOverlay :=
  match overlayLoad base files name with
  | .ok overlay => overlay
  | .error _ => none

/-- The family `process_family_msg` creates. -/
def FamilyLocals.family (base : CStr) (files : CStr → OverlayFile) (l : FamilyLocals) : Family :=
  { name := cString l.name.1
    id := l.id.1
    version := l.version
    hdrsize := l.hdrsize
    maxattr := l.maxattr
    ops := l.ops
    mcastGroups := l.grps
    overlay := familyOverlay base files (cString l.name.1) }

/-- The value of an unsigned length converted to `int`. -/
def toInt (n : Nat) : Int := if n < 2 ^ 31 then n else n - 2 ^ 32

theorem toInt_eq {n : Nat} (small : n < 2 ^ 31) : toInt n = n := if_pos small

/-- `process_family_msg`, on the children of the parent. -/
def processFamilyMsg (base : CStr) (files : CStr → OverlayFile) (mem : Mem) (nh : Nat)
    (children : List Family) : Except Error (List Family) :=
  if nlmsg.declaredAt mem nh < 20 then .error ["genl dump: truncated genlmsghdr"]
  else if mem (nh + 16) ≠ ctrlCmdNewfamily then .ok children
  else
    let attrsLen := toInt (nlmsg.declaredAt mem nh) - 20
    let l := (nla.walk mem (nh + 20) attrsLen).foldl (familyAttr mem) .zero
    if l.name.2 = false ∨ l.id.2 = false then .ok children
    else .ok (children ++ [l.family base files])

/-! ## What a message says -/

/-- The items of a nest: what the attributes of each element say. -/
def nestItems {β : Type} (take : β → Bytes → β) (zero : β) (data : Bytes) : List β :=
  (nla.frames data).map fun f => (nla.frames (payload f)).foldl take zero

/-- Take up a 32-bit number from an attribute of this type. -/
def take32 (type : UInt16) (v : UInt32) (f : Bytes) : UInt32 :=
  if attrType f = type ∧ 4 ≤ (payload f).length then field32 (payload f) 0 else v

/-- Take up an attribute of an operation. -/
def OpInfo.take (op : OpInfo) (f : Bytes) : OpInfo :=
  ⟨take32 ctrlAttrOpId op.id f, take32 ctrlAttrOpFlags op.flags f⟩

/-- Take up the name of a group. -/
def takeGroupName (name : Option CStr) (f : Bytes) : Option CStr :=
  if attrType f = ctrlAttrMcastGrpName ∧ 0 < (payload f).length then some (cString (payload f))
  else name

/-- Take up an attribute of a group. -/
def McastInfo.take (grp : McastInfo) (f : Bytes) : McastInfo :=
  ⟨take32 ctrlAttrMcastGrpId grp.id f, takeGroupName grp.name f⟩

/-- Take up the name of a family. -/
def takeName (name : Bytes × Bool) (f : Bytes) : Bytes × Bool :=
  if attrType f = ctrlAttrFamilyName ∧ 0 < (payload f).length ∧ (payload f).length ≤ 17 then
    (copyName name.1 (payload f), true)
  else name

/-- Take up the identifier of a family. -/
def takeId (id : UInt16 × Bool) (f : Bytes) : UInt16 × Bool :=
  if attrType f = ctrlAttrFamilyId ∧ 2 ≤ (payload f).length then (field16 (payload f) 0, true)
  else id

/-- Take up a nest. -/
def takeNest {β : Type} (type : UInt16) (take : β → Bytes → β) (zero : β) (items : List β)
    (f : Bytes) : List β :=
  if attrType f = type then nestItems take zero (payload f) else items

/-- Take up an attribute of a family. -/
def FamilyLocals.take (l : FamilyLocals) (f : Bytes) : FamilyLocals where
  name := takeName l.name f
  id := takeId l.id f
  version := take32 ctrlAttrVersion l.version f
  hdrsize := take32 ctrlAttrHdrsize l.hdrsize f
  maxattr := take32 ctrlAttrMaxattr l.maxattr f
  ops := takeNest ctrlAttrOps OpInfo.take ⟨0, 0⟩ l.ops f
  grps := takeNest ctrlAttrMcastGroups McastInfo.take ⟨0, none⟩ l.grps f

/-- What the attributes of a message say. -/
def familyLocals (m : Bytes) : FamilyLocals :=
  (nla.frames (msgAttrs m)).foldl FamilyLocals.take .zero

/-- The command of a message. -/
def msgCmd (m : Bytes) : UInt8 := m.getD 16 0

/-- The family a message describes, when it is the description of a family. -/
def familyOf (base : CStr) (files : CStr → OverlayFile) (m : Bytes) : Option Family :=
  if msgCmd m = ctrlCmdNewfamily ∧ (familyLocals m).name.2 = true ∧ (familyLocals m).id.2 = true then
    some ((familyLocals m).family base files)
  else none

/-! ## The program reads what the message says -/

section Reads

variable {mem : Mem}

theorem nlaTypeAt_eq {a : Nat} (covers : 4 ≤ nla.declaredAt mem a) :
    nlaTypeAt mem a = attrType (nla.recordAt mem a) := by
  rw [attrType, rawType_recordAt covers, nlaTypeAt]

theorem nlaPayloadAt_eq {a : Nat} (covers : 4 ≤ nla.declaredAt mem a) :
    nlaPayloadAt mem a = (payload (nla.recordAt mem a)).length := by
  rw [payload_recordAt covers, Mem.length_slice, nlaPayloadAt]

theorem load32_eq {a : Nat} (covers : 4 ≤ nla.declaredAt mem a)
    (long : 4 ≤ (payload (nla.recordAt mem a)).length) :
    mem.load32 (a + 4) = field32 (payload (nla.recordAt mem a)) 0 := by
  rw [payload_recordAt covers] at long ⊢
  rw [Mem.length_slice] at long
  exact (field32_slice mem (a + 4) _ (by omega)).symm

theorem load16_eq {a : Nat} (covers : 4 ≤ nla.declaredAt mem a)
    (long : 2 ≤ (payload (nla.recordAt mem a)).length) :
    mem.load16 (a + 4) = field16 (payload (nla.recordAt mem a)) 0 := by
  rw [payload_recordAt covers] at long ⊢
  rw [Mem.length_slice] at long
  exact (field16_slice mem (a + 4) _ (by omega)).symm

/-- A nest is parsed to its items. -/
theorem parseNest_eq {β : Type} {attr : β → Nat → β} {take : β → Bytes → β} (zero : β)
    (looks : ∀ item a, 4 ≤ nla.declaredAt mem a → attr item a = take item (nla.recordAt mem a))
    {outer : Nat} (covers : 4 ≤ nla.declaredAt mem outer) :
    parseNest attr zero mem outer = nestItems take zero (payload (nla.recordAt mem outer)) := by
  have payloadLen {a : Nat} (covers : 4 ≤ nla.declaredAt mem a) :
      mem.slice (a + 4) (nla.declaredAt mem a - 4 : Int).toNat = payload (nla.recordAt mem a) := by
    rw [payload_recordAt covers]
    congr 1
    omega
  have items : (nla.walk mem (outer + 4) (nla.declaredAt mem outer - 4)).map (fun cur =>
      (nla.walk mem (cur + 4) (nla.declaredAt mem cur - 4)).foldl attr zero) =
      nestItems take zero (payload (nla.recordAt mem outer)) := by
    rw [nestItems, ← payloadLen covers, ← Framing.walk_frames, List.map_map]
    refine List.map_congr_left ?_
    intro cur member
    have inside := (Framing.walk_within member).2.1
    rw [Framing.foldl_walk looks, payloadLen inside]
    rfl
  unfold parseNest
  split
  · next empty =>
      rw [← items, Framing.walk_of_not_ok fun ok => by
        have long : (4 : Int) ≤ _ := ok.1
        omega]
      rfl
  · rw [countAndFill_eq, items]

theorem opAttr_eq (op : OpInfo) {a : Nat} (covers : 4 ≤ nla.declaredAt mem a) :
    opAttr mem op a = op.take (nla.recordAt mem a) := by
  have w32 := load32_eq covers
  unfold opAttr OpInfo.take take32
  rw [nlaTypeAt_eq covers, nlaPayloadAt_eq covers]
  generalize attrType (nla.recordAt mem a) = type at *
  by_cases long : 4 ≤ (payload (nla.recordAt mem a)).length
  · rw [w32 long]
    by_cases id : type = ctrlAttrOpId
    · simp [id, long]
    · by_cases flags : type = ctrlAttrOpFlags
      · simp [flags, long]
      · simp only [id, flags, false_and, if_false]
  · simp [long]

theorem mcastAttr_eq (grp : McastInfo) {a : Nat} (covers : 4 ≤ nla.declaredAt mem a) :
    mcastAttr mem grp a = grp.take (nla.recordAt mem a) := by
  have w32 := load32_eq covers
  have name : mem.slice (a + 4) (payload (nla.recordAt mem a)).length =
      payload (nla.recordAt mem a) := by
    rw [payload_recordAt covers, Mem.length_slice]
  unfold mcastAttr McastInfo.take take32 takeGroupName
  rw [nlaTypeAt_eq covers, nlaPayloadAt_eq covers]
  simp only [name]
  generalize attrType (nla.recordAt mem a) = type at *
  by_cases isName : type = ctrlAttrMcastGrpName
  · subst isName
    by_cases long : 0 < (payload (nla.recordAt mem a)).length
    · simp [long]
    · simp [long]
  · by_cases id : type = ctrlAttrMcastGrpId ∧ 4 ≤ (payload (nla.recordAt mem a)).length
    · simp [id, w32 id.2]
    · simp only [isName, id, false_and, if_false]

/-- The body of the loop takes up the attribute. -/
theorem familyAttr_eq (l : FamilyLocals) {a : Nat} (covers : 4 ≤ nla.declaredAt mem a) :
    familyAttr mem l a = l.take (nla.recordAt mem a) := by
  have ops : parseNest (opAttr mem) ⟨0, 0⟩ mem a = _ :=
    parseNest_eq ⟨0, 0⟩ (fun op b inside => opAttr_eq op inside) covers
  have grps : parseNest (mcastAttr mem) ⟨0, none⟩ mem a = _ :=
    parseNest_eq ⟨0, none⟩ (fun grp b inside => mcastAttr_eq grp inside) covers
  have name : mem.slice (a + 4) (payload (nla.recordAt mem a)).length =
      payload (nla.recordAt mem a) := by
    rw [payload_recordAt covers, Mem.length_slice]
  have w32 := load32_eq covers
  have w16 := load16_eq covers
  unfold familyAttr FamilyLocals.take takeName takeId take32 takeNest parseOpsAttr parseMcastAttr
  rw [nlaTypeAt_eq covers, nlaPayloadAt_eq covers, ops, grps]
  simp only [name]
  generalize attrType (nla.recordAt mem a) = type at *
  generalize payload (nla.recordAt mem a) = data at *
  by_cases isName : type = ctrlAttrFamilyName
  · by_cases fits : 0 < data.length ∧ data.length ≤ 17
    · simp [isName, fits]
    · simp [isName, fits]
  by_cases isId : type = ctrlAttrFamilyId
  · by_cases long : 2 ≤ data.length
    · simp [isId, long, w16 long]
    · simp [isId, long]
  by_cases isNest : type = ctrlAttrOps ∨ type = ctrlAttrMcastGroups
  · rcases isNest with isOps | isMcast
    · simp [isOps]
    · simp [isMcast]
  obtain ⟨notOps, notMcast⟩ := not_or.mp isNest
  by_cases long : 4 ≤ data.length
  · rw [w32 long]
    by_cases isVersion : type = ctrlAttrVersion
    · simp [isVersion, long]
    by_cases isHdrsize : type = ctrlAttrHdrsize
    · simp [isHdrsize, long]
    by_cases isMaxattr : type = ctrlAttrMaxattr
    · simp [isMaxattr, long]
    · simp only [isName, isId, isVersion, isHdrsize, isMaxattr, notOps, notMcast, false_and, if_false]
  · simp only [isName, isId, long, notOps, notMcast, false_and, and_false, if_false, ite_self]

theorem msgCmd_recordAt {nh : Nat} (covers : 20 ≤ nlmsg.declaredAt mem nh) :
    msgCmd (nlmsg.recordAt mem nh) = mem (nh + 16) := by
  rw [msgCmd, Framing.recordAt, List.getD_eq_getElem?_getD, Mem.getElem?_slice mem (by omega),
    Option.getD_some]

theorem msgAttrs_recordAt {nh : Nat} (covers : 20 ≤ nlmsg.declaredAt mem nh) :
    msgAttrs (nlmsg.recordAt mem nh) =
      mem.slice (nh + 20) (nlmsg.declaredAt mem nh - 20 : Int).toNat := by
  rw [msgAttrs, Framing.recordAt, Mem.drop_slice mem nh covers]
  congr 1
  omega

/-- **What is appended depends only on the bytes of the message.** -/
theorem processFamilyMsg_eq (base : CStr) (files : CStr → OverlayFile) {nh : Nat}
    (covers : 20 ≤ nlmsg.declaredAt mem nh) (small : nlmsg.declaredAt mem nh < 2 ^ 31)
    (children : List Family) :
    processFamilyMsg base files mem nh children =
      .ok (children ++ (familyOf base files (nlmsg.recordAt mem nh)).toList) := by
  have locals : (nla.walk mem (nh + 20) (nlmsg.declaredAt mem nh - 20)).foldl (familyAttr mem) .zero =
      familyLocals (nlmsg.recordAt mem nh) := by
    rw [familyLocals, msgAttrs_recordAt covers]
    exact Framing.foldl_walk (fun l a inside => familyAttr_eq l inside) _ _ _
  unfold processFamilyMsg familyOf
  rw [if_neg (by omega), toInt_eq small, msgCmd_recordAt covers]
  simp only [locals]
  by_cases cmd : mem (nh + 16) = ctrlCmdNewfamily
  · rw [if_neg (not_not.mpr cmd)]
    by_cases named : (familyLocals (nlmsg.recordAt mem nh)).name.2 = true ∧
        (familyLocals (nlmsg.recordAt mem nh)).id.2 = true
    · rw [if_neg (by simp [named]), if_pos ⟨cmd, named⟩, Option.toList_some]
    · rw [if_pos (by simpa [imp_iff_not_or] using named), if_neg fun all => named all.2]
      simp
  · rw [if_pos cmd, if_neg fun all => cmd all.1]
    simp

end Reads

end Ykern.Genl
