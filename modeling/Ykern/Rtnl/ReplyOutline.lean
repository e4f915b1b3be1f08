import Ykern.Genl.RenderTree
import Ykern.Rtnl.BinaryValues

/-!
# Replies of the route namespace as outlines

A reply is shown as its fixed header, with the fields below it, and its attributes, a line each
(`routeText_outline`). The names are those of the tables, so only a string in the reply can
break a line (`routeOutline_plain`).
-/

set_option autoImplicit false

namespace Ykern.Rtnl

open Genl Netlink

/-- The line of an attribute, without its indentation. -/
def attrText (attrs : List RtnlAttr) (na : Bytes) : Bytes :=
  let attrMeta := rtnlAttrLookup attrs (attrType na)
  (attrMeta.map (·.name)).getD (lit "?") ++ lit " = " ++
    (if attrMeta.isNone then lit "(attr " ++ decimal (attrType na).toNat ++ lit ") " else []) ++
    renderAttrValue attrMeta (payload na) ++ lit "\n"

/-- The line of a field, without its indentation. -/
def HeaderField.text (mem : Mem) (hdr : Nat) (f : HeaderField) : Bytes :=
  f.label ++ lit " : " ++ f.format.print (uintOf (mem.slice (hdr + f.offset) f.size)) ++ lit "\n"

/-- What stands in front of the fields. -/
def structText (struct : CStr) : Bytes := lit "[response header — " ++ struct ++ lit ", read-only]\n"

/-- The outline of a reply of which only a string of bytes is given. -/
def routeOutline (op : RtnlOp) (m : Bytes) : Outline Bytes :=
  let attrs := (nla.frames (m.drop (16 + align4 (rtnlOps op).hdrSkip))).map fun na =>
    (attrText (rtnlOps op).attrs na).dropLast
  match headerLayout (rtnlOps op) with
  | none => .flat attrs .nil
  | some (struct, fields) =>
      .node (structText struct).dropLast
        (.flat (fields.map fun f => (f.text (Mem.place (fun _ => 0) m 0) 16).dropLast) .nil)
        (.flat attrs .nil)

/-! ## The text is that of the outline -/

theorem attrText_ends (attrs : List RtnlAttr) (na : Bytes) :
    (attrText attrs na).getLast? = some 10 := ends_append _ (by decide)

theorem fieldText_ends (mem : Mem) (hdr : Nat) (f : HeaderField) :
    (f.text mem hdr).getLast? = some 10 := ends_append _ (by decide)

theorem structText_ends (struct : CStr) : (structText struct).getLast? = some 10 :=
  ends_append _ (by decide)

/-- Lines one after the other are a flat outline. -/
theorem outlineText_flat {ι : Type} (depth : Nat) (text : ι → Bytes)
    (ends : ∀ i, (text i).getLast? = some 10) (is : List ι) :
    outlineText depth (.flat (is.map fun i => (text i).dropLast) .nil) =
      is.flatMap fun i => indentText depth ++ text i := by
  rw [outlineText, Outline.text_flat, Outline.text_nil, List.append_nil, List.flatMap_map]
  exact List.flatMap_congr fun i _ => line_of_ends depth (ends i)

theorem renderRtnlAttr_eq (attrs : List RtnlAttr) (na : Bytes) :
    renderRtnlAttr attrs na = indentText 1 ++ attrText attrs na := by
  simp only [renderRtnlAttr, attrText, List.append_assoc]
  rfl

theorem fieldLine_eq (mem : Mem) (hdr : Nat) (f : HeaderField) :
    f.line mem hdr = indentText 2 ++ f.text mem hdr := by
  simp only [HeaderField.line, HeaderField.text, List.append_assoc]
  rfl

/-- **A reply is rendered as its outline**, whatever its bytes are. -/
theorem routeText_outline (op : RtnlOp) (m : Bytes) :
    renderMsgHeader (rtnlOps op) (Mem.place (fun _ => 0) m 0) 16 ++
        (nla.frames (m.drop (16 + align4 (rtnlOps op).hdrSkip))).flatMap
          (renderRtnlAttr (rtnlOps op).attrs) =
      outlineText 1 (routeOutline op m) := by
  obtain ⟨struct, init, last, layout, -⟩ := headerLayout_rtnlOps op
  simp only [renderMsgHeader, routeOutline, layout]
  rw [outlineText_node 1 (structText_ends struct), outlineText_flat 2 _ (fieldText_ends _ 16),
    outlineText_flat 1 _ (attrText_ends _)]
  simp only [← renderRtnlAttr_eq, ← fieldLine_eq, structText, List.append_assoc]
  rfl

/-! ## Labels that are lines -/

theorem notMem_flatMap {α : Type} {as : List α} {text : α → Bytes}
    (inline : ∀ a ∈ as, (10 : UInt8) ∉ text a) : (10 : UInt8) ∉ as.flatMap text := by
  intro member
  obtain ⟨a, isOne, member⟩ := List.mem_flatMap.mp member
  exact inline a isOne member

theorem notMem_decimalInt (n : Int) : (10 : UInt8) ∉ decimalInt n := by
  unfold decimalInt
  split
  · rw [← List.singleton_append]
    exact notMem_append (by decide) (notMem_decimal (by decide) _)
  · exact notMem_decimal (by decide) _

theorem renderBytes_inline (p : Bytes) : (10 : UInt8) ∉ renderBytes p :=
  notMem_append (notMem_append (notMem_append (by decide) (notMem_decimal (by decide) _)) (by decide))
    (notMem_flatMap fun _ _ => notMem_append (by decide) (notMem_hexField (by decide) _ _))

/-- A NUL at the end of a string is not shown. -/
theorem cString_dropLast {p : Bytes} (ends : p.getLast? = some 0) :
    cString p.dropLast = cString p := by
  rw [← cString_concat_nul, List.dropLast_append_getLast? 0 ends]

/-- **Only a string breaks the line** of a value. -/
theorem renderAttrValue_inline {attrMeta : Option RtnlAttr} {p : Bytes}
    (inline : attrMeta.map (·.kind) = some .str → (10 : UInt8) ∉ cString p) :
    (10 : UInt8) ∉ renderAttrValue attrMeta p := by
  unfold renderAttrValue
  cases kind : (attrMeta.map (·.kind)).getD .bin with
  | flag => exact (by decide : (10 : UInt8) ∉ lit "(flag)")
  | u8 => exact notMem_decimal (by decide) _
  | u16 => exact notMem_decimal (by decide) _
  | u32 => exact notMem_decimal (by decide) _
  | u64 => exact notMem_decimal (by decide) _
  | s32 => exact notMem_decimalInt _
  | nest => exact notMem_append (notMem_append (by decide) (notMem_decimal (by decide) _)) (by decide)
  | str =>
      have isString : attrMeta.map (·.kind) = some .str := by
        cases known : attrMeta.map (·.kind) with
        | none =>
            rw [known] at kind
            cases kind
        | some k =>
            rw [known] at kind
            exact congrArg some kind
      refine notMem_append (notMem_append (by decide) ?_) (by decide)
      split
      · next ends =>
          rw [cString_dropLast ends]
          exact inline isString
      · exact inline isString
  | bin =>
      dsimp only
      split
      · by_cases six : p.length = 6
        · exact notMem_renderMac (by decide) six
        · rw [renderMac, if_pos six]
          exact renderBytes_inline p
      split
      · next address => exact notMem_renderIp (by decide) address
      · exact renderBytes_inline p

/-- The names of attributes are plain. -/
theorem rtnlOps_names (op : RtnlOp) : ∀ a ∈ (rtnlOps op).attrs, PlainName a.name := by
  have plain : ∀ a ∈ (rtnlOps op).attrs, (10 : UInt8) ∉ a.name ∧ a.name.head? ≠ some 32 := by
    cases op <;> decide
  exact fun a member => ⟨(plain a member).1, (plain a member).2⟩

/-- The strings in a reply have no end of line. -/
def PlainStrings (op : RtnlOp) (m : Bytes) : Prop :=
  ∀ na ∈ nla.frames (m.drop (16 + align4 (rtnlOps op).hdrSkip)),
    (rtnlAttrLookup (rtnlOps op).attrs (attrType na)).map (·.kind) = some .str →
      (10 : UInt8) ∉ cString (payload na)

theorem attrText_plain {op : RtnlOp} {na : Bytes}
    (inline : (rtnlAttrLookup (rtnlOps op).attrs (attrType na)).map (·.kind) = some .str →
      (10 : UInt8) ∉ cString (payload na)) :
    PlainLabel (attrText (rtnlOps op).attrs na).dropLast := by
  have name : PlainName (((rtnlAttrLookup (rtnlOps op).attrs (attrType na)).map (·.name)).getD
      (lit "?")) := by
    cases known : rtnlAttrLookup (rtnlOps op).attrs (attrType na) with
    | none => exact ⟨by decide, by decide⟩
    | some a => exact rtnlOps_names op a (List.mem_of_find?_eq_some known)
  have unknown (attrMeta : Option RtnlAttr) : (10 : UInt8) ∉
      (if attrMeta.isNone then lit "(attr " ++ decimal (attrType na).toNat ++ lit ") " else []) := by
    split
    · exact notMem_append (notMem_append (by decide) (notMem_decimal (by decide) _)) (by decide)
    · exact List.not_mem_nil
  rw [attrText, List.dropLast_append_of_ne_nil (by decide), show (lit "\n").dropLast = [] from rfl,
    List.append_nil]
  refine ⟨notMem_append (notMem_append (notMem_append name.inline (by decide)) (unknown _))
    (renderAttrValue_inline inline), ?_⟩
  rw [List.append_assoc, List.append_assoc]
  exact not_indented name.flush (not_indented_append _ (by decide) (by decide))

/-- The struct and the labels of its fields. -/
theorem headerLayout_names (op : RtnlOp) {struct : CStr} {fields : List HeaderField}
    (layout : headerLayout (rtnlOps op) = some (struct, fields)) :
    (10 : UInt8) ∉ struct ∧ ∀ f ∈ fields, (10 : UInt8) ∉ f.label ∧ f.label.head? ≠ some 32 := by
  have plain : ∀ laidOut ∈ headerLayout (rtnlOps op), (10 : UInt8) ∉ laidOut.1 ∧
      ∀ f ∈ laidOut.2, (10 : UInt8) ∉ f.label ∧ f.label.head? ≠ some 32 := by
    cases op <;> decide
  exact plain _ layout

theorem fieldText_plain {f : HeaderField} (inline : (10 : UInt8) ∉ f.label)
    (flush : f.label.head? ≠ some 32) (mem : Mem) (hdr : Nat) :
    PlainLabel (f.text mem hdr).dropLast := by
  have number (v : Nat) : (10 : UInt8) ∉ f.format.print v := by
    cases f.format with
    | unsigned => exact notMem_decimal (by decide) v
    | signed => exact notMem_decimalInt _
    | hex width => exact notMem_append (by decide) (notMem_hexField (by decide) width v)
  rw [HeaderField.text, List.dropLast_append_of_ne_nil (by decide),
    show (lit "\n").dropLast = [] from rfl, List.append_nil]
  refine ⟨notMem_append (notMem_append inline (by decide)) (number _), ?_⟩
  rw [List.append_assoc]
  exact not_indented flush (not_indented_append _ (by decide) (by decide))

/-- **Every label is a line of its own**, when the strings have no end of line. -/
theorem routeOutline_plain {op : RtnlOp} {m : Bytes} (strings : PlainStrings op m) :
    ∀ label ∈ (routeOutline op m).labels, PlainLabel label := by
  have attrs : ∀ label ∈ (Outline.flat ((nla.frames (m.drop (16 + align4
      (rtnlOps op).hdrSkip))).map fun na => (attrText (rtnlOps op).attrs na).dropLast) .nil).labels,
      PlainLabel label := by
    intro label member
    rw [Outline.labels_flat] at member
    obtain ⟨na, isFrame, rfl⟩ := List.mem_map.mp ((List.mem_append.mp member).resolve_right nofun)
    exact attrText_plain (strings na isFrame)
  unfold routeOutline
  dsimp only
  split
  · exact attrs
  · next struct fields layout =>
      obtain ⟨structInline, names⟩ := headerLayout_names op layout
      intro label member
      rcases List.mem_cons.mp member with rfl | member
      · rw [structText, List.dropLast_append_of_ne_nil (by decide)]
        refine ⟨notMem_append (notMem_append (by decide) structInline) (by decide), ?_⟩
        rw [List.append_assoc]
        exact not_indented_append _ (by decide) (by decide)
      rcases List.mem_append.mp member with inner | outer
      · rw [Outline.labels_flat] at inner
        obtain ⟨f, isField, rfl⟩ := List.mem_map.mp ((List.mem_append.mp inner).resolve_right nofun)
        exact fieldText_plain (names f isField).1 (names f isField).2 _ 16
      · exact attrs label outer

end Ykern.Rtnl
