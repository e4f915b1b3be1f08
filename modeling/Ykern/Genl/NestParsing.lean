import Ykern.Genl.FamilyMessage

/-!
# Two passes over a nest

`parse_ops_attr` and `parse_mcast_attr` walk a nest twice. The first walk counts the elements,
and an array is allocated for so many; the second fills the array, with a walk of its own over
the attributes of each element, and trusts that there are no more elements than before.

A write behind the end of the array has no result here. The second walk has one whatever the
bytes are: it ends at the index that was counted, and each field is that of the last attribute
that tells it (`parseNests_spec`).
-/

set_option autoImplicit false

namespace Ykern.Genl

open Netlink

variable {β : Type}

/-! ## The passes -/

/-- The first pass, from a count. -/
def countElements (mem : Mem) (cur : Nat) (rem : Int) (count : Nat) : Nat :=
  if _ok : nla.Ok mem cur rem then
    countElements mem (cur + align4 (nla.declaredAt mem cur))
      (rem - align4 (nla.declaredAt mem cur)) (count + 1)
  else count
termination_by rem.toNat
decreasing_by exact _ok.advance

/-- Write to an element of the array. -/
def writeElement (items : List β) (i : Nat) (write : β → β) : Option (List β) :=
  if i < items.length then some (items.modify i write) else none

/-- The loop over the attributes of the element with this index. An attribute may write. -/
def fillElement (field : Nat → Option (β → β)) (mem : Mem) (i sub : Nat) (subRem : Int)
    (items : List β) : Option (List β) :=
  if _ok : nla.Ok mem sub subRem then do
    let items ←
      match field sub with
      | none => some items
      | some write => writeElement items i write
    fillElement field mem i (sub + align4 (nla.declaredAt mem sub))
      (subRem - align4 (nla.declaredAt mem sub)) items
  else some items
termination_by subRem.toNat
decreasing_by exact _ok.advance

/-- The second pass, from an index. -/
def fillElements (field : Nat → Option (β → β)) (mem : Mem) (cur : Nat) (rem : Int) (i : Nat)
    (items : List β) : Option (Nat × List β) :=
  if _ok : nla.Ok mem cur rem then do
    let items ← fillElement field mem i (cur + 4) (nla.declaredAt mem cur - 4) items
    fillElements field mem (cur + align4 (nla.declaredAt mem cur))
      (rem - align4 (nla.declaredAt mem cur)) (i + 1) items
  else some (i, items)
termination_by rem.toNat
decreasing_by exact _ok.advance

/-- What `parse_ops_attr` and `parse_mcast_attr` have in common, pass by pass: the number of
elements, the index at the end, and the array. -/
def parseNestTwice (field : Nat → Option (β → β)) (zero : β) (mem : Mem) (outer : Nat) :
    Option (Nat × Nat × List β) :=
  let outerLen : Int := nla.declaredAt mem outer - 4
  if outerLen ≤ 0 then some (0, 0, [])
  else
    let count := countElements mem (outer + 4) outerLen 0
    if count = 0 then some (0, 0, [])
    else (fillElements field mem (outer + 4) outerLen 0 (List.replicate count zero)).map (count, ·)

/-- What an attribute of an operation writes. -/
def opField (mem : Mem) (sub : Nat) : Option (OpInfo → OpInfo) :=
  if nlaTypeAt mem sub = ctrlAttrOpId ∧ 4 ≤ nlaPayloadAt mem sub then
    some fun op => { op with id := mem.load32 (sub + 4) }
  else if nlaTypeAt mem sub = ctrlAttrOpFlags ∧ 4 ≤ nlaPayloadAt mem sub then
    some fun op => { op with flags := mem.load32 (sub + 4) }
  else none

/-- What an attribute of a multicast group writes. -/
def mcastField (mem : Mem) (sub : Nat) : Option (McastInfo → McastInfo) :=
  if nlaTypeAt mem sub = ctrlAttrMcastGrpId ∧ 4 ≤ nlaPayloadAt mem sub then
    some fun grp => { grp with id := mem.load32 (sub + 4) }
  else if nlaTypeAt mem sub = ctrlAttrMcastGrpName then
    let plen := nlaPayloadAt mem sub
    if 0 < plen then
      some fun grp => { grp with name := some (cString (mem.slice (sub + 4) plen)) }
    else none
  else none

/-- The passes of `parse_ops_attr`. -/
def parseOpsTwice (mem : Mem) (outer : Nat) : Option (Nat × Nat × List OpInfo) :=
  parseNestTwice (opField mem) ⟨0, 0⟩ mem outer

/-- The passes of `parse_mcast_attr`. -/
def parseMcastTwice (mem : Mem) (outer : Nat) : Option (Nat × Nat × List McastInfo) :=
  parseNestTwice (mcastField mem) ⟨0, none⟩ mem outer

/-! ## Both passes visit the same elements -/

section Passes

variable {mem : Mem} {field : Nat → Option (β → β)} {attr : β → Nat → β}

theorem countElements_eq (cur : Nat) (rem : Int) (count : Nat) :
    countElements mem cur rem count = count + (nla.walk mem cur rem).length := by
  induction cur, rem, count using countElements.induct mem with
  | case1 cur rem count ok ih =>
      rw [countElements, dif_pos ok, ih, Framing.walk_of_ok ok, List.length_cons]
      omega
  | case2 cur rem count ok =>
      rw [countElements, dif_neg ok, Framing.walk_of_not_ok ok]
      rfl

theorem writeElement_append (before : List β) (item : β) (after : List β) (write : β → β) :
    writeElement (before ++ item :: after) before.length write =
      some (before ++ write item :: after) := by
  rw [writeElement, if_pos (by rw [List.length_append, List.length_cons]; omega),
    modify_length_append]

/-- An element is filled with what its attributes write, one after another. -/
theorem fillElement_eq (writes : ∀ item a, attr item a = (field a).elim item (· item))
    (sub : Nat) (subRem : Int) (before : List β) (item : β) (after : List β) :
    fillElement field mem before.length sub subRem (before ++ item :: after) =
      some (before ++ (nla.walk mem sub subRem).foldl attr item :: after) := by
  induction sub, subRem using Framing.walk.induct nla mem generalizing item with
  | case1 sub subRem ok ih =>
      rw [fillElement, dif_pos ok, Framing.walk_of_ok ok, List.foldl_cons, writes]
      cases written : field sub with
      | none => exact ih item
      | some write =>
          simp only [writeElement_append, Option.bind_eq_bind, Option.bind_some]
          exact ih (write item)
  | case2 sub subRem ok =>
      rw [fillElement, dif_neg ok, Framing.walk_of_not_ok ok]
      rfl

/-- The second pass fills as many elements as it visits. -/
theorem fillElements_eq (writes : ∀ item a, attr item a = (field a).elim item (· item))
    (zero : β) (cur : Nat) (rem : Int) (before : List β) :
    fillElements field mem cur rem before.length
        (before ++ List.replicate (nla.walk mem cur rem).length zero) =
      some (before.length + (nla.walk mem cur rem).length,
        before ++ (nla.walk mem cur rem).map fun a =>
          (nla.walk mem (a + 4) (nla.declaredAt mem a - 4)).foldl attr zero) := by
  induction cur, rem using Framing.walk.induct nla mem generalizing before with
  | case1 cur rem ok ih =>
      rw [fillElements, dif_pos ok, Framing.walk_of_ok ok, List.length_cons, List.replicate_succ,
        fillElement_eq writes, Option.bind_eq_bind, Option.bind_some, List.map_cons]
      have next := ih (before ++ [(nla.walk mem (cur + 4)
        (nla.declaredAt mem cur - 4)).foldl attr zero])
      rw [List.length_append, List.length_singleton, List.append_assoc, List.singleton_append,
        List.append_assoc, List.singleton_append] at next
      rw [next, Nat.add_assoc, Nat.add_comm 1]
  | case2 cur rem ok =>
      rw [fillElements, dif_neg ok, Framing.walk_of_not_ok ok]
      simp

/-- **No write is behind the end of the array**: the second pass ends at the index that was
counted, with the elements of the nest. -/
theorem parseNestTwice_eq (writes : ∀ item a, attr item a = (field a).elim item (· item))
    (zero : β) (outer : Nat) :
    parseNestTwice field zero mem outer =
      some ((parseNest attr zero mem outer).length, (parseNest attr zero mem outer).length,
        parseNest attr zero mem outer) := by
  simp only [parseNestTwice, parseNest]
  split
  · rfl
  · rw [countElements_eq, Nat.zero_add, countAndFill_eq, List.length_map]
    split
    · next none => rw [List.length_eq_zero_iff.mp none]; rfl
    · have filled := @fillElements_eq β mem field attr writes zero (outer + 4)
        (nla.declaredAt mem outer - 4) []
      rw [List.nil_append, List.nil_append, List.length_nil, Nat.zero_add] at filled
      rw [filled]
      rfl

end Passes

/-! ## What is decoded -/

/-- The number that an attribute of this type tells, if it is long enough. -/
def told32 (type : UInt16) (f : Bytes) : Option UInt32 :=
  if attrType f = type ∧ 4 ≤ (payload f).length then some (field32 (payload f) 0) else none

/-- The name that an attribute tells, up to its first NUL. -/
def toldName (f : Bytes) : Option CStr :=
  if attrType f = ctrlAttrMcastGrpName ∧ 0 < (payload f).length then some (cString (payload f))
  else none

/-- What the last attribute of an element that tells it tells. -/
def lastTold {γ : Type} (tells : Bytes → Option γ) (element : Bytes) : Option γ :=
  ((nla.frames (payload element)).filterMap tells).getLast?

/-- The operation an element tells. -/
def toldOp (element : Bytes) : OpInfo :=
  ⟨(lastTold (told32 ctrlAttrOpId) element).getD 0,
    (lastTold (told32 ctrlAttrOpFlags) element).getD 0⟩

/-- The multicast group an element tells. -/
def toldGroup (element : Bytes) : McastInfo :=
  ⟨(lastTold (told32 ctrlAttrMcastGrpId) element).getD 0, lastTold toldName element⟩

theorem foldl_take32 (type : UInt16) (v : UInt32) (fs : List Bytes) :
    fs.foldl (take32 type) v = (fs.filterMap (told32 type)).getLast?.getD v := by
  have step (v : UInt32) (f : Bytes) : take32 type v f = (told32 type f).elim v id := by
    unfold take32 told32
    split
    · rfl
    · rfl
  have last := foldl_last (told32 type) id v fs
  rw [← List.foldl_ext _ _ v fun v f _ => step v f] at last
  rw [last]
  cases (fs.filterMap (told32 type)).getLast? <;> rfl

theorem foldl_takeGroupName (name : Option CStr) (fs : List Bytes) :
    fs.foldl takeGroupName name = (fs.filterMap toldName).getLast?.or name := by
  have step (name : Option CStr) (f : Bytes) :
      takeGroupName name f = (toldName f).elim name some := by
    unfold takeGroupName toldName
    split
    · rfl
    · rfl
  have last := foldl_last toldName some name fs
  rw [← List.foldl_ext _ _ name fun name f _ => step name f] at last
  rw [last]
  cases (fs.filterMap toldName).getLast? <;> rfl

theorem foldl_opTake (op : OpInfo) (fs : List Bytes) :
    fs.foldl OpInfo.take op =
      ⟨fs.foldl (take32 ctrlAttrOpId) op.id, fs.foldl (take32 ctrlAttrOpFlags) op.flags⟩ := by
  induction fs generalizing op with
  | nil => rfl
  | cons f fs ih => exact ih _

theorem foldl_mcastTake (grp : McastInfo) (fs : List Bytes) :
    fs.foldl McastInfo.take grp =
      ⟨fs.foldl (take32 ctrlAttrMcastGrpId) grp.id, fs.foldl takeGroupName grp.name⟩ := by
  induction fs generalizing grp with
  | nil => rfl
  | cons f fs ih => exact ih _

/-- The items of a nest of operations, and of a nest of multicast groups. -/
theorem nestItems_opTake (data : Bytes) :
    nestItems OpInfo.take ⟨0, 0⟩ data = (nla.frames data).map toldOp := by
  apply List.map_congr_left
  intro element _
  rw [foldl_opTake, foldl_take32, foldl_take32]
  rfl

@[inherit_doc nestItems_opTake]
theorem nestItems_mcastTake (data : Bytes) :
    nestItems McastInfo.take ⟨0, none⟩ data = (nla.frames data).map toldGroup := by
  apply List.map_congr_left
  intro element _
  rw [foldl_mcastTake, foldl_take32, foldl_takeGroupName, Option.or_none]
  rfl

section Parsing

variable {mem : Mem}

/-- The attributes of an element write what the loop makes of them. -/
theorem opAttr_eq_elim (op : OpInfo) (a : Nat) :
    opAttr mem op a = (opField mem a).elim op (· op) := by
  unfold opAttr opField
  split
  · rfl
  · split
    · rfl
    · rfl

@[inherit_doc opAttr_eq_elim]
theorem mcastAttr_eq_elim (grp : McastInfo) (a : Nat) :
    mcastAttr mem grp a = (mcastField mem a).elim grp (· grp) := by
  unfold mcastAttr mcastField
  split
  · rfl
  · split
    · dsimp only
      split
      · rfl
      · rfl
    · rfl

/-- A nest is parsed to its items, also where its length is less than its header. -/
theorem parseNest_items {attr : β → Nat → β} {take : β → Bytes → β} (zero : β)
    (looks : ∀ item a, 4 ≤ nla.declaredAt mem a → attr item a = take item (nla.recordAt mem a))
    (outer : Nat) :
    parseNest attr zero mem outer = nestItems take zero (payload (nla.recordAt mem outer)) := by
  by_cases covers : 4 ≤ nla.declaredAt mem outer
  · exact parseNest_eq zero looks covers
  · have few : payload (nla.recordAt mem outer) = [] := by
      apply List.drop_eq_nil_of_le
      rw [Framing.recordAt, Mem.length_slice]
      omega
    rw [few, nestItems, Framing.frames_nil, parseNest, if_pos (by omega)]
    rfl

end Parsing

/-- **Both passes visit the same elements, and each entry is the decoding of its element.**
Whatever the bytes of the nest are, every write is within the array of the elements counted,
the second pass ends at the index that was counted, and the entries are what the elements
tell, in order: each field is that of the last attribute of its type that is long enough, and
zero or missing when there is none. -/
theorem parseNests_spec (mem : Mem) (outer : Nat) :
    (∃ ops, parseOpsTwice mem outer = some (ops.length, ops.length, ops) ∧
        parseOpsAttr mem outer = ops ∧
        ops = (nla.frames (payload (nla.recordAt mem outer))).map toldOp) ∧
      ∃ groups, parseMcastTwice mem outer = some (groups.length, groups.length, groups) ∧
        parseMcastAttr mem outer = groups ∧
        groups = (nla.frames (payload (nla.recordAt mem outer))).map toldGroup := by
  constructor
  · refine ⟨parseOpsAttr mem outer, parseNestTwice_eq opAttr_eq_elim _ outer, rfl, ?_⟩
    rw [← nestItems_opTake]
    exact parseNest_items _ (fun op a covers => opAttr_eq op covers) outer
  · refine ⟨parseMcastAttr mem outer, parseNestTwice_eq mcastAttr_eq_elim _ outer, rfl, ?_⟩
    rw [← nestItems_mcastTake]
    exact parseNest_items _ (fun grp a covers => mcastAttr_eq grp covers) outer

end Ykern.Genl
