import Ykern.Foundation.Outline
import Ykern.Genl.RenderScalars
import Ykern.Netlink.AttrTree

/-!
# Replies as outlines

What rendering is for: the bytes of a reply are a tree of attributes, read with the sets of the
overlay (`setNesting`), and the text is an outline of this tree (`attrOutline`). This is so for
whatever bytes (`streamText_outline`).

The outline is read back from the text (`rendered_outline`), so replies with the same text
have the same outline. For this the names must fit on their lines: those of the sets must not
start with the indentation (`PlainOverlay`), and neither those nor the ones in a bit set may
have a line break (`PlainEntries`).
-/

set_option autoImplicit false

namespace Ykern.Genl

open Overlay Netlink

/-! ## How an attribute is shown -/

/-- The identifiers of the entry that an attribute with this set is shown as, if it is one. -/
def compactIds (childSet : Option AttrSetOverlay) : Option BitIds :=
  childSet.bind fun child => if child.setName = lit "BITSET_BIT" then bitIds child else none

section Forms

variable (all : Option FamilyOverlay) (set : Option AttrSetOverlay) (type : UInt16)

/-- The name of attributes of this type. -/
def typeName : Option CStr := attrSetLookupName set (type &&& nlaTypeMask).toUInt32

/-- The set the payload of attributes of this type is rendered with. -/
def typeSet : Option AttrSetOverlay := childSetOf all set (typeName set type)

/-- Attributes of this type are shown by value. -/
def isScalar : Bool := !(type &&& nlaFNested != 0 || (typeSet all set type).isSome)

end Forms

/-- The attributes that are rendered as nests: those with a set that are no entries of a bit
set. -/
def setNesting (all : Option FamilyOverlay) : Nesting (Option AttrSetOverlay) := fun set type =>
  match compactIds (typeSet all set type) with
  | some _ => none
  | none => (typeSet all set type).map some

/-- What stands in front of the attributes of a nest. -/
def headingText (name : Option CStr) : Bytes := name.getD (lit "?") ++ lit ":\n"

/-- What is shown of a nest without a set. -/
def undeclaredText (size : Nat) : Bytes :=
  lit "(nested, " ++ decimal size ++ lit (" bytes — schema not declared; add a schema " ++
    "alias if this attribute uses a known sub-set)\n")

/-- The line of an entry of a bit set. -/
def entryText (ids : BitIds) (data : Bytes) : Bytes :=
  bitLine (bitEntry ids data).idx (bitEntry ids data).name (bitEntry ids data).valueSet

/-- The line of an attribute that is not rendered as a nest. -/
def valueText (all : Option FamilyOverlay) (set : Option AttrSetOverlay) (type : UInt16)
    (data : Bytes) : Bytes :=
  if isScalar all set type then
    attrLabel (typeName set type) (type &&& nlaTypeMask) ++ scalarText data
  else
    match compactIds (typeSet all set type) with
    | some ids => entryText ids data
    | none => headingText (typeName set type)

/-- What is below the line of an attribute that is not rendered as a nest. -/
def valueBelow (all : Option FamilyOverlay) (set : Option AttrSetOverlay) (type : UInt16)
    (data : Bytes) : Outline Bytes :=
  if isScalar all set type ∨ (compactIds (typeSet all set type)).isSome then .nil
  else .node (undeclaredText data.length).dropLast .nil .nil

/-- **The outline of attributes.** A label is a line without its end. -/
def attrOutline (all : Option FamilyOverlay) (set : Option AttrSetOverlay) :
    Attrs → Outline Bytes
  | .nil => .nil
  | .value type data others =>
      .node (valueText all set type data).dropLast (valueBelow all set type data)
        (attrOutline all set others)
  | .nest type inner others =>
      .node (headingText (typeName set type)).dropLast
        (attrOutline all ((setNesting all set type).getD none) inner) (attrOutline all set others)

/-- The outline of bytes. -/
def outlineOf (all : Option FamilyOverlay) (set : Option AttrSetOverlay) (bs : Bytes) :
    Outline Bytes := attrOutline all set (readAttrs (setNesting all) set bs)

/-! ## The text is that of the outline -/

/-- The text of an outline, indented as replies are. -/
def outlineText (depth : Nat) (o : Outline Bytes) : Bytes := o.text (lit "  ") 10 depth

/-- A text with an end of line is one line. -/
theorem line_of_ends {text : Bytes} (depth : Nat) (ends : text.getLast? = some 10) :
    Outline.line (lit "  ") 10 (depth, text.dropLast) = indentText depth ++ text := by
  rw [Outline.line, List.append_assoc, List.dropLast_append_getLast? 10 ends, indentText]

theorem outlineText_node {text : Bytes} (depth : Nat) (ends : text.getLast? = some 10)
    (below others : Outline Bytes) :
    outlineText depth (.node text.dropLast below others) = indentText depth ++ text ++
      outlineText (depth + 1) below ++ outlineText depth others := by
  rw [outlineText, Outline.text_node, line_of_ends depth ends, ← List.append_assoc]
  rfl

theorem ends_append {text : Bytes} (front : Bytes) (ends : text.getLast? = some 10) :
    (front ++ text).getLast? = some 10 := by
  rw [List.getLast?_append, ends]
  rfl

theorem headingText_ends (name : Option CStr) : (headingText name).getLast? = some 10 :=
  ends_append _ (by decide)

theorem undeclaredText_ends (size : Nat) : (undeclaredText size).getLast? = some 10 :=
  ends_append _ (by decide)

theorem entryText_ends (ids : BitIds) (data : Bytes) : (entryText ids data).getLast? = some 10 :=
  ends_append _ (by decide)

theorem scalarText_ends (data : Bytes) : (scalarText data).getLast? = some 10 := by
  unfold scalarText
  split
  · decide
  split
  · exact ends_append _ (by decide)
  unfold sizedText
  dsimp only
  split
  · exact ends_append _ (by decide)
  · exact ends_append _ (by decide)
  · exact ends_append _ (by decide)
  · exact ends_append _ (by decide)
  · exact ends_append _ (by decide)

theorem valueText_ends (all : Option FamilyOverlay) (set : Option AttrSetOverlay) (type : UInt16)
    (data : Bytes) : (valueText all set type data).getLast? = some 10 := by
  unfold valueText
  split
  · exact ends_append _ (scalarText_ends data)
  split
  · exact entryText_ends _ _
  · exact headingText_ends _

theorem compactText_eq (childSet : Option AttrSetOverlay) (depth : Nat) (data : Bytes) :
    compactText childSet depth data =
      (compactIds childSet).map fun ids => indentText depth ++ entryText ids data := by
  cases childSet with
  | none => rfl
  | some child =>
      rw [compactText, compactIds, Option.bind_some, Option.bind_some]
      split
      · rfl
      · rfl

section Refinement

variable {all : Option FamilyOverlay} {set : Option AttrSetOverlay} {type : UInt16}

theorem isScalar_iff : isScalar all set type = true ↔
    ¬((type &&& nlaFNested != 0) = true ∨ (typeSet all set type).isSome) := by
  rw [isScalar, Bool.not_eq_true', Bool.or_eq_false_iff, not_or, Bool.not_eq_true, Bool.not_eq_true]

/-- An attribute that is not a nest has no set, or it is an entry of a bit set. -/
theorem typeSet_of_value (isValue : setNesting all set type = none)
    (noEntry : compactIds (typeSet all set type) = none) : typeSet all set type = none := by
  rw [setNesting, noEntry] at isValue
  exact Option.map_eq_none_iff.mp isValue

/-- A nest has a set, and is no entry of a bit set. -/
theorem typeSet_of_nest {inner : Option AttrSetOverlay}
    (isNest : setNesting all set type = some inner) :
    ∃ child, inner = some child ∧ typeSet all set type = some child ∧
      compactIds (typeSet all set type) = none := by
  unfold setNesting at isNest
  split at isNest
  · cases isNest
  · next noEntry =>
      obtain ⟨child, known, rfl⟩ := Option.map_eq_some_iff.mp isNest
      exact ⟨child, rfl, known, noEntry⟩

variable (depth : Nat) (data : Bytes) (recursive : AttrSetOverlay → Bytes)

/-- An attribute that is not rendered as a nest. -/
theorem namedText_value (isValue : setNesting all set type = none) :
    namedText data (type &&& nlaTypeMask) (type &&& nlaFNested != 0) (typeName set type)
        (typeSet all set type) depth recursive =
      indentText depth ++ valueText all set type data ++
        outlineText (depth + 1) (valueBelow all set type data) := by
  rw [namedText.eq_def, valueText, valueBelow, compactText_eq]
  by_cases scalar : isScalar all set type = true
  · rw [if_neg (isScalar_iff.mp scalar), if_pos scalar, if_pos (.inl scalar)]
    exact (List.append_nil _).symm
  · have nested := not_not.mp (scalar ∘ isScalar_iff.mpr)
    rw [if_pos nested, if_neg scalar]
    cases entry : compactIds (typeSet all set type) with
    | some ids =>
        rw [if_pos (.inr rfl)]
        exact (List.append_nil _).symm
    | none =>
        rw [if_neg (by simp [scalar]), typeSet_of_value isValue entry]
        show indentText depth ++ (headingText (typeName set type) ++
          (indentText (depth + 1) ++ undeclaredText data.length)) = _
        rw [outlineText_node _ (undeclaredText_ends _)]
        simp only [outlineText, Outline.text_nil, List.append_nil, List.append_assoc]

/-- An attribute that is rendered as a nest. -/
theorem namedText_nest {inner : Option AttrSetOverlay}
    (isNest : setNesting all set type = some inner) : ∃ child, inner = some child ∧
      namedText data (type &&& nlaTypeMask) (type &&& nlaFNested != 0) (typeName set type)
          (typeSet all set type) depth recursive =
        indentText depth ++ headingText (typeName set type) ++ recursive child := by
  obtain ⟨child, rfl, known, noEntry⟩ := typeSet_of_nest isNest
  refine ⟨child, rfl, ?_⟩
  rw [namedText.eq_def, compactText_eq, noEntry, known, if_pos (.inr rfl)]
  exact (List.append_assoc _ _ _).symm

/-- **Rendering prints the outline of the bytes**, whatever they are. -/
theorem streamText_outline (all : Option FamilyOverlay) (set : Option AttrSetOverlay)
    (depth : Nat) (bs : Bytes) :
    streamText set all depth bs = outlineText depth (outlineOf all set bs) := by
  rw [outlineOf]
  induction set, bs using readAttrs.induct (setNesting all) generalizing depth with
  | case1 set bs fits f isValue ih =>
      have frames := streamText_eq set all depth bs
      rw [Framing.frames_of_fits nla fits, List.flatMap_cons, ← streamText_eq, ih] at frames
      rw [frames, readAttrs_of_fits _ _ fits]
      simp only [show setNesting all set (rawType (bs.take (nla.declared bs))) = none from isValue]
      rw [attrOutline, outlineText_node depth (valueText_ends _ _ _ _)]
      exact congrArg (· ++ _) (namedText_value depth _ _ isValue)
  | case2 set bs fits f inner isNest ih ihInner =>
      have frames := streamText_eq set all depth bs
      rw [Framing.frames_of_fits nla fits, List.flatMap_cons, ← streamText_eq, ih] at frames
      obtain ⟨child, rfl, text⟩ := namedText_nest depth (payload f)
        (fun child => streamText (some child) all (depth + 1) (payload f)) isNest
      rw [frames, readAttrs_of_fits _ _ fits]
      simp only [show setNesting all set (rawType (bs.take (nla.declared bs))) = some (some child)
        from isNest]
      rw [attrOutline, show setNesting all set (rawType (bs.take (nla.declared bs))) =
        some (some child) from isNest, Option.getD_some, outlineText_node depth (headingText_ends _)]
      refine congrArg (· ++ _) (text.trans ?_)
      rw [ihInner]
  | case3 set bs fits =>
      rw [streamText_eq, Framing.frames_of_not_fits nla fits, readAttrs_of_not_fits _ _ fits]
      rfl

end Refinement

/-! ## Labels that are lines -/

/-- A line has no end of line in it. -/
def Inline (text : Bytes) : Prop := (10 : UInt8) ∉ text.dropLast

instance (text : Bytes) : Decidable (Inline text) := inferInstanceAs (Decidable (_ ∉ _))

theorem inline_append {front text : Bytes} (plain : (10 : UInt8) ∉ front) (nonempty : text ≠ [])
    (inline : Inline text) : Inline (front ++ text) := by
  rw [Inline, List.dropLast_append_of_ne_nil nonempty, List.mem_append]
  exact not_or.mpr ⟨plain, inline⟩

theorem sizedText_inline (data : Bytes) : Inline (sizedText data) := by
  unfold sizedText
  dsimp only
  split
  · exact inline_append (notMem_decimal (by decide) _) (by decide) (by decide)
  · exact inline_append (notMem_decimal (by decide) _) (by decide) (by decide)
  · refine inline_append (notMem_append (notMem_append (notMem_decimal (by decide) _) (by decide)) ?_)
      (by decide) (by decide)
    exact notMem_hexField (by decide) _ _
  · refine inline_append (notMem_append (notMem_append (notMem_decimal (by decide) _) (by decide)) ?_)
      (by decide) (by decide)
    exact notMem_hexField (by decide) _ _
  · refine inline_append (notMem_append (notMem_append (notMem_append (notMem_append (by decide)
      (notMem_decimal (by decide) _)) (by decide)) ?_) ?_) (by decide) (by decide)
    · intro member
      obtain ⟨c, -, member⟩ := List.mem_flatMap.mp member
      exact notMem_append (by decide) (notMem_hexField (by decide) _ _) member
    · split
      · decide
      · exact List.not_mem_nil

/-- **A scalar is shown on one line**, whatever its bytes are. -/
theorem scalarText_inline (data : Bytes) : Inline (scalarText data) := by
  unfold scalarText
  split
  · decide
  split
  · next string =>
      refine inline_append (notMem_append (notMem_append (notMem_append (by decide) ?_)
        (by decide)) (notMem_decimal (by decide) _)) (by decide) (by decide)
      intro member
      rw [isString, Bool.and_eq_true, List.all_eq_true] at string
      exact absurd (string.2 10 member) (by decide)
  · exact sizedText_inline data

theorem undeclaredText_inline (size : Nat) : Inline (undeclaredText size) :=
  inline_append (notMem_append (by decide) (notMem_decimal (by decide) size)) (by decide) (by decide)

/-- A name that leaves the line it is printed on as it is. -/
structure PlainName (name : CStr) : Prop where
  inline : (10 : UInt8) ∉ name
  flush : name.head? ≠ some 32

theorem not_indented {name rest : Bytes} (flush : name.head? ≠ some 32)
    (solid : ¬lit "  " <+: rest) : ¬lit "  " <+: name ++ rest := by
  cases name with
  | nil => exact solid
  | cons c name =>
      intro indented
      have blank : (32 : UInt8) = c := (List.cons_prefix_cons.mp indented).1
      exact flush (by rw [List.head?_cons, blank])

theorem not_indented_append {front : Bytes} (rest : Bytes) (solid : ¬lit "  " <+: front)
    (long : 2 ≤ front.length) : ¬lit "  " <+: front ++ rest := fun indented =>
  solid (List.prefix_of_prefix_length_le indented (List.prefix_append front rest) long)

/-- A label that is a line, and is not taken for one that is deeper. -/
abbrev PlainLabel (label : Bytes) : Prop := Outline.Plain (lit "  ") 10 label

theorem headingText_plain {name : Option CStr} (plain : ∀ n, name = some n → PlainName n) :
    PlainLabel (headingText name).dropLast := by
  have label : (headingText name).dropLast = name.getD (lit "?") ++ lit ":" := by
    rw [headingText, List.dropLast_append_of_ne_nil (by decide)]
    rfl
  have isPlain : PlainName (name.getD (lit "?")) := by
    cases name with
    | none => exact ⟨by decide, by decide⟩
    | some n => exact plain n rfl
  rw [label]
  exact ⟨notMem_append isPlain.inline (by decide), not_indented isPlain.flush (by decide)⟩

theorem attrLabel_plain {name : Option CStr} (plain : ∀ n, name = some n → PlainName n) (t : UInt16) :
    (10 : UInt8) ∉ attrLabel name t ∧ ∀ rest, ¬lit "  " <+: attrLabel name t ++ rest := by
  cases name with
  | none =>
      refine ⟨notMem_append (notMem_append (by decide) (notMem_decimal (by decide) _)) (by decide), ?_⟩
      intro rest
      rw [attrLabel, List.append_assoc, List.append_assoc]
      exact not_indented_append _ (by decide) (by decide)
  | some n =>
      obtain ⟨inline, flush⟩ := plain n rfl
      refine ⟨notMem_append inline (by decide), fun rest => ?_⟩
      rw [attrLabel, List.append_assoc]
      exact not_indented flush (not_indented_append _ (by decide) (by decide))

theorem entryText_plain {ids : BitIds} {data : Bytes}
    (plain : ∀ n, (bitEntry ids data).name = some n → (10 : UInt8) ∉ n) :
    PlainLabel (entryText ids data).dropLast := by
  have name : (10 : UInt8) ∉ (bitEntry ids data).name.getD (lit "(no name)") := by
    cases named : (bitEntry ids data).name with
    | none => decide
    | some n => exact plain n named
  have number : (10 : UInt8) ∉ padLeft (charByte ' ') 3 (decimal ((bitEntry ids data).idx.getD 0)) := by
    refine notMem_append ?_ (notMem_decimal (by decide) _)
    intro member
    exact absurd (List.eq_of_mem_replicate member) (by decide)
  have state (on : Bool) : (10 : UInt8) ∉ (if on then lit "on" else lit "off") := by
    cases on
    · decide
    · decide
  refine ⟨?_, ?_⟩
  · refine inline_append ?_ (by decide) (by decide)
    exact notMem_append (notMem_append (notMem_append (notMem_append (notMem_append (by decide)
      number) (by decide)) name) (by decide)) (state _)
  · rw [entryText, bitLine, List.dropLast_append_of_ne_nil (by decide)]
    simp only [List.append_assoc]
    intro indented
    exact absurd (List.cons_prefix_cons.mp indented).1 (by decide)

/-! ## Reading the outline back -/

/-- The names in a set are plain. -/
def PlainSet (set : Option AttrSetOverlay) : Prop :=
  ∀ s, set = some s → ∀ a ∈ s.attrs.items, ∀ n, a.name = some n → PlainName n

/-- The names in the sets of an overlay are plain. -/
def PlainOverlay (all : Option FamilyOverlay) : Prop :=
  ∀ o, all = some o → ∀ s ∈ o.attrSets.items, PlainSet (some s)

/-- The names in the entries of bit sets have no end of line. -/
def PlainEntries (all : Option FamilyOverlay) : Option AttrSetOverlay → Attrs → Prop
  | _, .nil => True
  | set, .value type data others =>
      (∀ ids, compactIds (typeSet all set type) = some ids →
        ∀ n, (bitEntry ids data).name = some n → (10 : UInt8) ∉ n) ∧ PlainEntries all set others
  | set, .nest type inner others =>
      PlainEntries all ((setNesting all set type).getD none) inner ∧ PlainEntries all set others

section Plain

variable {all : Option FamilyOverlay} {set : Option AttrSetOverlay}

theorem PlainSet.typeName (plain : PlainSet set) (type : UInt16) :
    ∀ n, typeName set type = some n → PlainName n := by
  intro n named
  obtain ⟨s, isSet, found⟩ := Option.bind_eq_some_iff.mp named
  obtain ⟨a, isAttr, named⟩ := Option.bind_eq_some_iff.mp found
  exact plain s isSet a (List.mem_of_find?_eq_some isAttr) n named

theorem PlainOverlay.findAttrSet (plain : PlainOverlay all) {name : CStr} {s : AttrSetOverlay}
    (found : findAttrSet all name = some s) : PlainSet (some s) := by
  obtain ⟨o, isOverlay, found⟩ := Option.bind_eq_some_iff.mp found
  exact plain o isOverlay s (List.mem_of_find?_eq_some found)

theorem PlainOverlay.childSetOf (plain : PlainOverlay all) {name : Option CStr}
    {child : AttrSetOverlay} (known : childSetOf all set name = some child) :
    PlainSet (some child) := by
  obtain ⟨n, -, found⟩ := Option.bind_eq_some_iff.mp known
  cases own : Overlay.findAttrSet all n with
  | some s =>
      rw [own] at found
      cases found
      exact plain.findAttrSet own
  | none =>
      rw [own] at found
      obtain ⟨childName, -, found⟩ := Option.bind_eq_some_iff.mp found
      exact plain.findAttrSet found

/-- The sets that nests are rendered with are those of the overlay. -/
theorem PlainOverlay.setNesting (plain : PlainOverlay all) (set : Option AttrSetOverlay)
    (type : UInt16) : PlainSet ((setNesting all set type).getD none) := by
  cases nested : Ykern.Genl.setNesting all set type with
  | none => exact fun s isSet => by cases isSet
  | some inner =>
      obtain ⟨child, rfl, known, -⟩ := typeSet_of_nest nested
      exact plain.childSetOf known

/-- **Every label is a line of its own**, when the names are plain. -/
theorem attrOutline_plain (overlay : PlainOverlay all) (names : PlainSet set) {attrs : Attrs}
    (entries : PlainEntries all set attrs) : ∀ label ∈ (attrOutline all set attrs).labels,
      PlainLabel label := by
  induction attrs generalizing set with
  | nil => exact fun label member => by cases member
  | value type data others ih =>
      obtain ⟨own, others⟩ := entries
      have isLine : PlainLabel (valueText all set type data).dropLast := by
        unfold valueText
        split
        · obtain ⟨inline, solid⟩ := attrLabel_plain (names.typeName type) (type &&& nlaTypeMask)
          have ends : scalarText data ≠ [] := fun none => by
            have last := scalarText_ends data
            rw [none] at last
            cases last
          rw [PlainLabel, Outline.Plain, List.dropLast_append_of_ne_nil ends]
          exact ⟨notMem_append inline (scalarText_inline data), solid _⟩
        split
        · next ids isEntry => exact entryText_plain (own ids isEntry)
        · exact headingText_plain (names.typeName type)
      have below : ∀ label ∈ (valueBelow all set type data).labels, PlainLabel label := by
        unfold valueBelow
        split
        · exact fun label member => by cases member
        · intro label member
          obtain rfl := List.mem_singleton.mp member
          refine ⟨undeclaredText_inline _, ?_⟩
          rw [undeclaredText, List.dropLast_append_of_ne_nil (by decide), List.append_assoc]
          exact not_indented_append _ (by decide) (by decide)
      intro label member
      rcases List.mem_cons.mp member with rfl | member
      · exact isLine
      rcases List.mem_append.mp member with inner | outer
      · exact below label inner
      · exact ih names others label outer
  | nest type inner others ihInner ih =>
      obtain ⟨inside, others⟩ := entries
      intro label member
      rcases List.mem_cons.mp member with rfl | member
      · exact headingText_plain (names.typeName type)
      rcases List.mem_append.mp member with inner | outer
      · exact ihInner (overlay.setNesting set type) inside label inner
      · exact ih names others label outer

/-- Read the outline of a text that is indented as replies are. -/
def readOutline (depth : Nat) (text : Bytes) : Option (Outline Bytes) :=
  Outline.readText (lit "  ") 10 depth text

/-- **Rendering prints an outline of the reply, which is read back.** The text of any bytes is
that of the outline of the tree of attributes that they are with the sets of the overlay. When
the names are plain, reading the text gives this outline. -/
theorem rendered_outline (all : Option FamilyOverlay) (set : Option AttrSetOverlay) (bs : Bytes)
    (depth : Nat) :
    rendered set all depth bs = outlineText depth (outlineOf all set bs) ∧
      (PlainOverlay all → PlainSet set →
        PlainEntries all set (readAttrs (setNesting all) set bs) →
          readOutline depth (rendered set all depth bs) = some (outlineOf all set bs)) := by
  have text : rendered set all depth bs = outlineText depth (outlineOf all set bs) := by
    rw [rendered_eq, streamText_outline]
  refine ⟨text, fun overlay names entries => ?_⟩
  rw [text]
  exact Outline.readText_text (by decide) (by decide)
    (attrOutline_plain overlay names entries) depth

end Plain

/-- A number that is shown as a string, and a nest. -/
def linkReply : Attrs := .value 1 [0x41, 0] (.nest 0x8002 (.value 1 [5] .nil) .nil)

/-- The text it is rendered as. -/
def linkReplyText : Bytes := lit "PORT = \"A\"  (string, 2 bytes)\nSTATE:\n  [attr 1] = 5  (u8)\n"

/-- The outline of the reply is read back from its text. -/
theorem linkReply_rendered :
    rendered (some linkSet) (some linkOverlay) 0 linkReply.bytes = linkReplyText ∧
      readOutline 0 linkReplyText =
        some (attrOutline (some linkOverlay) (some linkSet) linkReply) := by
  have linkPlain : PlainSet (some linkSet) := by
    intro s isSet a member n named
    cases isSet
    rcases List.mem_pair.mp member with rfl | rfl
    all_goals
      cases named
      exact ⟨by decide, by decide⟩
  have plain : PlainOverlay (some linkOverlay) := by
    intro o isOverlay s member
    cases isOverlay
    rcases List.mem_pair.mp member with rfl | rfl
    · exact linkPlain
    · intro s isSet a member
      cases isSet
      cases member
  have read : readAttrs (setNesting (some linkOverlay)) (some linkSet) linkReply.bytes =
      linkReply :=
    readAttrs_bytes ⟨by decide, ⟨by decide, ⟨by decide, trivial⟩, trivial⟩⟩
      ⟨rfl, ⟨_, rfl, rfl, trivial⟩, trivial⟩
  have entries : PlainEntries (some linkOverlay) (some linkSet) linkReply :=
    ⟨nofun, ⟨nofun, trivial⟩, trivial⟩
  obtain ⟨printed, readBack⟩ :=
    rendered_outline (some linkOverlay) (some linkSet) linkReply.bytes 0
  have readBack := readBack plain linkPlain (read.symm ▸ entries)
  have text : outlineText 0 (attrOutline (some linkOverlay) (some linkSet) linkReply) =
      linkReplyText := by decide
  rw [outlineOf, read] at printed readBack
  have printed := printed.trans text
  rw [printed] at readBack
  exact ⟨printed, readBack⟩

end Ykern.Genl
