import Ykern.Overlay.KeyOrder

/-!
# One file for two

The overlay of a family can be written as a document of its own: every row under its number
or its name, with a field for each of its strings. What the loader makes of the two files of
a family is what it makes of the one file that is written so from the overlay they give,
whatever rows, fields or sections the two have in common, and in whatever order
(`overlayLoad_flattened`).

The document reader gives back the sections that were written
(`sectionsOf_document`), the loader gives back the rows they were written from, and the
merge leaves rows with an id as they are.
-/

set_option autoImplicit false

namespace Ykern.Overlay

/-! ## Writing -/

/-- A number is read as what it was written from. -/
theorem parseUint32_decimal (n : UInt32) : parseUint32 (decimal n.toNat) = some n := by
  have small := n.toNat_lt
  have nonempty : decimal n.toNat ≠ [] := by
    intro none
    have digits : Nat.toDigits 10 n.toNat = [] := List.map_eq_nil_iff.mp none
    exact absurd digits Nat.toDigits_ne_nil
  have converted := strtoul_digits nonempty fun c member => isDigit_of_mem_decimal member
  rw [digitsValue_decimal, if_neg (by unfold ulongRange; omega)] at converted
  rw [parseUint32, if_neg nonempty]
  simp only [converted]
  rw [if_neg (by simp; omega), UInt32.ofNat_toNat]

/-- A field, if there is a value. -/
def optField (key : CStr) (value : Option CStr) : List (CStr × CStr) :=
  value.toList.map (key, ·)

/-- The entry of an operation. -/
def opEntry (row : OpOverlay CStr) : Entry :=
  ⟨decimal row.cmdId.toNat, optField (lit "name") row.name ++
    (optField (lit "short") row.shortDesc ++ optField (lit "long") row.longDesc)⟩

/-- The entry of a multicast group. -/
def mcastEntry (group : McastOverlay) : Entry :=
  ⟨group.name.getD [],
    optField (lit "short") group.shortDesc ++ optField (lit "long") group.longDesc⟩

/-- The entry of an attribute. -/
def attrEntry (a : AttrOverlay) : Entry :=
  ⟨decimal a.attrId.toNat, optField (lit "name") a.name ++ optField (lit "type") a.typeHint⟩

/-- The entries of an attribute set. -/
def setEntries (set : AttrSetOverlay) : CStr × List Entry :=
  (set.setName, set.attrs.items.map attrEntry)

/-- The scalars of an overlay. -/
def FamilyOverlay.topFields (o : FamilyOverlay) : List (CStr × CStr) :=
  optField (lit "family") o.familyName ++
    (optField (lit "short") o.shortDesc ++ optField (lit "long") o.longDesc)

/-- The sections of an overlay. -/
def FamilyOverlay.sections (o : FamilyOverlay) : List Section :=
  (o.topFields.map fun f => .scalar f.1 f.2) ++
    [.operations (o.ops.items.map opEntry), .mcastGroups (o.mcast.items.map mcastEntry),
      .attributeSets (o.attrSets.items.map setEntries)]

/-- A mapping of scalars. -/
def fieldsNode (fields : List (CStr × CStr)) : YamlNode :=
  .mapping (fields.map fun f => (.scalar f.1, .scalar f.2))

/-- A mapping of entries. -/
def entriesNode (entries : List Entry) : YamlNode :=
  .mapping (entries.map fun e => (.scalar e.key, fieldsNode e.fields))

/-- The key of a section. -/
def Section.key : Section → CStr
  | .operations _ => lit "operations"
  | .mcastGroups _ => lit "mcast_groups"
  | .attributeSets _ => lit "attribute_sets"
  | .scalar key _ => key

/-- What is under the key of a section. -/
def Section.body : Section → YamlNode
  | .operations entries | .mcastGroups entries => entriesNode entries
  | .attributeSets sets => .mapping (sets.map fun set => (.scalar set.1, entriesNode set.2))
  | .scalar _ value => .scalar value

/-- A document of these sections. -/
def document (sections : List Section) : YamlNode :=
  .mapping (sections.map fun s => (.scalar s.key, s.body))

/-- A file with these sections. -/
def sectionsFile (sections : List Section) : OverlayFile :=
  .events (.streamStart :: .documentStart ::
    ((document sections).events ++ [.documentEnd, .streamEnd]))

/-- The file of an overlay. -/
def FamilyOverlay.file (o : FamilyOverlay) : OverlayFile := sectionsFile o.sections

/-! ## Reading what was written -/

/-- A text that a C string holds. -/
def NulFree (s : CStr) : Prop := (0 : UInt8) ∉ s

/-- The texts of an entry hold no NUL. -/
def Entry.Clean (e : Entry) : Prop :=
  NulFree e.key ∧ ∀ f ∈ e.fields, NulFree f.1 ∧ NulFree f.2

/-- A section that can be written: no text holds a NUL, attributes are numbered, and the key of
a scalar is not that of another section. -/
def Section.Writable : Section → Prop
  | .operations entries | .mcastGroups entries => ∀ e ∈ entries, e.Clean
  | .attributeSets sets => ∀ set ∈ sets, NulFree set.1 ∧
      ∀ e ∈ set.2, e.Clean ∧ isAttrKey e.key = true
  | .scalar key value => NulFree key ∧ NulFree value ∧ key ≠ lit "operations" ∧
      key ≠ lit "mcast_groups" ∧ key ≠ lit "attribute_sets"

namespace YamlNode

/-- Entries that are each read as what they were written from. -/
theorem mappingOf_written {α : Type} {of : CStr → YamlNode → Option α} {key : α → CStr}
    {node : α → YamlNode} {items : List α}
    (reads : ∀ x ∈ items, NulFree (key x) ∧ of (key x) (node x) = some x) :
    (YamlNode.mapping (items.map fun x => (.scalar (key x), node x))).mappingOf of =
      some items := by
  rw [mappingOf]
  induction items with
  | nil => rfl
  | cons x items ih =>
      obtain ⟨clean, read⟩ := reads x List.mem_cons_self
      have first : entryOf of (.scalar (key x), node x) = some x := by
        rw [entryOf, scalar?, takeScalar, cString_eq_self clean, Option.bind_some, read]
      rw [List.map_cons, List.mapM_cons, first,
        ih fun y member => reads y (List.mem_cons_of_mem _ member)]
      rfl

theorem mappingOf_fields {fields : List (CStr × CStr)}
    (clean : ∀ f ∈ fields, NulFree f.1 ∧ NulFree f.2) :
    (fieldsNode fields).mappingOf fieldOf = some fields := by
  refine mappingOf_written fun f member => ⟨(clean f member).1, ?_⟩
  rw [fieldOf, scalar?, takeScalar, cString_eq_self (clean f member).2, Option.map_some]

theorem mappingOf_entries {accepts : CStr → Bool} {entries : List Entry}
    (clean : ∀ e ∈ entries, e.Clean ∧ accepts e.key = true) :
    (entriesNode entries).mappingOf (rowOf accepts) = some entries := by
  refine mappingOf_written fun e member => ⟨(clean e member).1.1, ?_⟩
  rw [rowOf, if_pos (clean e member).2, mappingOf_fields (clean e member).1.2, Option.map_some]

theorem sectionKeys_nulFree : NulFree (lit "operations") ∧ NulFree (lit "mcast_groups") ∧
    NulFree (lit "attribute_sets") := by
  unfold NulFree
  decide

theorem sectionOf_body {s : Section} (writable : s.Writable) :
    NulFree s.key ∧ sectionOf s.key s.body = some s := by
  have entries {entries : List Entry} (clean : ∀ e ∈ entries, e.Clean) :
      (entriesNode entries).mappingOf (rowOf fun _ => true) = some entries :=
    mappingOf_entries fun e member => ⟨clean e member, rfl⟩
  cases s with
  | operations es =>
      refine ⟨sectionKeys_nulFree.1, ?_⟩
      rw [Section.key, Section.body, sectionOf, if_pos rfl, entries writable, Option.map_some]
  | mcastGroups es =>
      refine ⟨sectionKeys_nulFree.2.1, ?_⟩
      rw [Section.key, Section.body, sectionOf, if_neg (by decide), if_pos rfl, entries writable,
        Option.map_some]
  | attributeSets sets =>
      refine ⟨sectionKeys_nulFree.2.2, ?_⟩
      have read : (Section.attributeSets sets).body.mappingOf setOf = some sets := by
        refine mappingOf_written fun set member => ⟨(writable set member).1, ?_⟩
        rw [setOf, mappingOf_entries (writable set member).2, Option.map_some]
      rw [Section.key, sectionOf, if_neg (by decide), if_neg (by decide), if_pos rfl, read,
        Option.map_some]
  | scalar key value =>
      obtain ⟨clean, cleanValue, notOps, notGroups, notSets⟩ := writable
      refine ⟨clean, ?_⟩
      rw [Section.key, Section.body, sectionOf, if_neg notOps, if_neg notGroups, if_neg notSets,
        fieldOf, scalar?, takeScalar, cString_eq_self cleanValue]
      rfl

/-- **The sections of a document are those it was written from.** -/
theorem sectionsOf_document {sections : List Section}
    (writable : ∀ s ∈ sections, s.Writable) : (document sections).sectionsOf = some sections :=
  mappingOf_written fun s member => sectionOf_body (writable s member)

end YamlNode

/-- **A file is complete, with the sections it was written from.** -/
theorem sectionsFile_sections {sections : List Section} (writable : ∀ s ∈ sections, s.Writable) :
    (sectionsFile sections).Complete ∧ (sectionsFile sections).sections = sections := by
  have read := readDocument_node (document sections) [.documentEnd, .streamEnd]
  rw [YamlNode.sectionsOf_document writable] at read
  have read : readDocument (.streamStart :: .documentStart ::
      ((document sections).events ++ [.documentEnd, .streamEnd])) =
        (sections, some [.documentEnd, .streamEnd]) := read
  refine ⟨?_, ?_⟩
  · rw [sectionsFile, OverlayFile.Complete, read]
    rfl
  · rw [sectionsFile, OverlayFile.sections, read]

/-! ## The rows that were written -/

/-- The text may be missing. -/
def NulFree? (s : Option CStr) : Prop := ∀ t, s = some t → NulFree t

/-- A row whose texts are C strings. -/
structure OpOverlay.Clean (row : OpOverlay CStr) : Prop where
  name : NulFree? row.name
  shortDesc : NulFree? row.shortDesc
  longDesc : NulFree? row.longDesc

/-- A group that has a name, and whose texts are C strings. -/
structure McastOverlay.Clean (group : McastOverlay) : Prop where
  name : ∃ name, group.name = some name ∧ NulFree name
  shortDesc : NulFree? group.shortDesc
  longDesc : NulFree? group.longDesc

/-- An attribute whose texts are C strings. -/
structure AttrOverlay.Clean (a : AttrOverlay) : Prop where
  name : NulFree? a.name
  typeHint : NulFree? a.typeHint

/-- An overlay that can be written. -/
structure FamilyOverlay.Clean (o : FamilyOverlay) : Prop where
  familyName : NulFree? o.familyName
  shortDesc : NulFree? o.shortDesc
  longDesc : NulFree? o.longDesc
  ops : ∀ row ∈ o.ops.items, row.Clean
  mcast : ∀ group ∈ o.mcast.items, group.Clean
  sets : ∀ set ∈ o.attrSets.items.map (·.row), NulFree set.1 ∧ ∀ a ∈ set.2, a.Clean

theorem optField_clean {key : CStr} {value : Option CStr} (keyFree : NulFree key)
    (valueFree : NulFree? value) : ∀ f ∈ optField key value, NulFree f.1 ∧ NulFree f.2 := by
  intro f member
  obtain ⟨v, isValue, rfl⟩ := List.mem_map.mp member
  exact ⟨keyFree, valueFree v (Option.mem_toList.mp isValue)⟩

theorem decimal_nulFree (n : Nat) : NulFree (decimal n) := by
  intro member
  exact absurd (isDigit_of_mem_decimal member) (by decide)

theorem lit_nulFree : NulFree (lit "name") ∧ NulFree (lit "short") ∧ NulFree (lit "long") ∧
    NulFree (lit "type") ∧ NulFree (lit "family") := by
  unfold NulFree
  decide

/-- The field of a row is assigned what was written. -/
theorem foldl_optField {ρ : Type} (assign : ρ → CStr → CStr → ρ) (key : CStr)
    (value : Option CStr) (row : ρ) :
    (optField key value).foldl (fun row f => assign row f.1 f.2) row =
      value.elim row (assign row key) := by
  cases value <;> rfl

theorem opRow_opEntry (row : OpOverlay CStr) : opRow (opEntry row) = row := by
  have key : opKey (decimal row.cmdId.toNat) = (row.cmdId, none) := by
    rw [opKey, parseUint32_decimal]
  have short : lit "short" ≠ lit "name" := by decide
  have long : lit "long" ≠ lit "name" ∧ lit "long" ≠ lit "short" := by decide
  rw [opRow, opEntry, List.foldl_append, List.foldl_append, foldl_optField, foldl_optField,
    foldl_optField, key]
  obtain ⟨cmdId, name, shortDesc, longDesc⟩ := row
  cases name <;> cases shortDesc <;> cases longDesc <;> simp [assignOp, short, long]

theorem mcastRow_mcastEntry {group : McastOverlay} (named : ∃ name, group.name = some name) :
    mcastRow (mcastEntry group) = group := by
  have long : lit "long" ≠ lit "short" := by decide
  obtain ⟨_, shortDesc, longDesc⟩ := group
  obtain ⟨name, rfl⟩ := named
  rw [mcastRow, mcastEntry, List.foldl_append, foldl_optField, foldl_optField]
  cases shortDesc <;> cases longDesc <;> simp [assignMcast, long]

theorem attrRow_attrEntry (a : AttrOverlay) : attrRow (attrEntry a) = a := by
  have type : lit "type" ≠ lit "name" := by decide
  rw [attrRow, attrEntry, List.foldl_append, foldl_optField, foldl_optField,
    parseUint32_decimal]
  obtain ⟨attrId, name, typeHint⟩ := a
  cases name <;> cases typeHint <;> simp [assignAttr, type]

theorem setRow_setEntries (set : AttrSetOverlay) : setRow (setEntries set) = set.row := by
  rw [setRow, setEntries, List.map_map, AttrSetOverlay.row]
  exact congrArg _ ((List.map_congr_left fun a _ => attrRow_attrEntry a).trans (List.map_id _))

theorem opEntry_clean {row : OpOverlay CStr} (clean : row.Clean) : (opEntry row).Clean := by
  obtain ⟨name, short, long, -⟩ := lit_nulFree
  refine ⟨decimal_nulFree _, fun f member => ?_⟩
  rcases List.mem_append.mp member with inName | member
  · exact optField_clean name clean.name f inName
  rcases List.mem_append.mp member with inShort | inLong
  · exact optField_clean short clean.shortDesc f inShort
  · exact optField_clean long clean.longDesc f inLong

theorem mcastEntry_clean {group : McastOverlay} (clean : group.Clean) :
    (mcastEntry group).Clean := by
  obtain ⟨-, short, long, -⟩ := lit_nulFree
  obtain ⟨name, isNamed, free⟩ := clean.name
  refine ⟨?_, fun f member => ?_⟩
  · rw [mcastEntry, isNamed]
    exact free
  rcases List.mem_append.mp member with inShort | inLong
  · exact optField_clean short clean.shortDesc f inShort
  · exact optField_clean long clean.longDesc f inLong

theorem attrEntry_clean {a : AttrOverlay} (clean : a.Clean) :
    (attrEntry a).Clean ∧ isAttrKey (attrEntry a).key = true := by
  obtain ⟨name, -, -, type, -⟩ := lit_nulFree
  refine ⟨⟨decimal_nulFree _, fun f member => ?_⟩, ?_⟩
  · rcases List.mem_append.mp member with inName | inType
    · exact optField_clean name clean.name f inName
    · exact optField_clean type clean.typeHint f inType
  · rw [isAttrKey, attrEntry, parseUint32_decimal]
    rfl

/-- **An overlay whose texts are C strings can be written.** -/
theorem FamilyOverlay.Clean.writable {o : FamilyOverlay} (clean : o.Clean) :
    ∀ s ∈ o.sections, s.Writable := by
  obtain ⟨-, short, long, -, family⟩ := lit_nulFree
  intro s member
  rcases List.mem_append.mp member with scalar | array
  · obtain ⟨f, isField, rfl⟩ := List.mem_map.mp scalar
    have known : (f.1 = lit "family" ∨ f.1 = lit "short" ∨ f.1 = lit "long") ∧ NulFree f.1 ∧
        NulFree f.2 := by
      rcases List.mem_append.mp isField with inFamily | member
      · refine ⟨.inl ?_, optField_clean family clean.familyName f inFamily⟩
        obtain ⟨v, -, rfl⟩ := List.mem_map.mp inFamily
        rfl
      rcases List.mem_append.mp member with inShort | inLong
      · refine ⟨.inr (.inl ?_), optField_clean short clean.shortDesc f inShort⟩
        obtain ⟨v, -, rfl⟩ := List.mem_map.mp inShort
        rfl
      · refine ⟨.inr (.inr ?_), optField_clean long clean.longDesc f inLong⟩
        obtain ⟨v, -, rfl⟩ := List.mem_map.mp inLong
        rfl
    refine ⟨known.2.1, known.2.2, ?_⟩
    rcases known.1 with same | same | same
    · rw [same]
      decide
    · rw [same]
      decide
    · rw [same]
      decide
  · simp only [List.mem_cons, List.not_mem_nil, or_false] at array
    rcases array with rfl | rfl | rfl
    · intro e isEntry
      obtain ⟨row, isRow, rfl⟩ := List.mem_map.mp isEntry
      exact opEntry_clean (clean.ops row isRow)
    · intro e isEntry
      obtain ⟨group, isGroup, rfl⟩ := List.mem_map.mp isEntry
      exact mcastEntry_clean (clean.mcast group isGroup)
    · intro entries isSet
      obtain ⟨set, inOverlay, rfl⟩ := List.mem_map.mp isSet
      obtain ⟨free, attrs⟩ := clean.sets set.row (List.mem_map_of_mem inOverlay)
      refine ⟨free, fun e isEntry => ?_⟩
      obtain ⟨a, isAttr, rfl⟩ := List.mem_map.mp isEntry
      exact attrEntry_clean (attrs a isAttr)

/-! ## What is loaded can be written -/

/-- What is read of a mapping is as its values are. -/
theorem readMapping_forall {α : Type} {value : ValueReader α} {holds : α → Prop}
    (each : ∀ key evs, NulFree key → ∀ x ∈ (value.read key evs).1, holds x)
    (evs : List YamlEvent) : ∀ x ∈ (readMapping value evs).1, holds x := by
  have free (k : Bytes) : NulFree (takeScalar k) := by
    intro member
    have := List.mem_takeWhile_imp member
    exact absurd this (by decide)
  induction evs using readMapping.induct value with
  | case1 rest =>
      rw [readMapping]
      exact fun x member => absurd member List.not_mem_nil
  | case2 k rest first incomplete =>
      rw [readMapping]
      split
      · exact each _ rest (free k)
      · next found => rw [incomplete] at found; cases found
  | case3 k rest first rest' complete ih =>
      rw [readMapping_complete complete]
      intro x member
      rcases List.mem_append.mp member with here | later
      · exact each _ rest (free k) x here
      · exact ih x later
  | case4 evs notEnd notScalar =>
      rw [readMapping.eq_3 _ _ notEnd notScalar]
      exact fun x member => absurd member List.not_mem_nil

theorem mapping_forall {α β : Type} {value : ValueReader α} {accepts : CStr → Bool}
    {complete incomplete : CStr → List α → List β} {holds : α → Prop} {good : β → Prop}
    (each : ∀ key evs, NulFree key → ∀ x ∈ (value.read key evs).1, holds x)
    (whole : ∀ key xs, NulFree key → accepts key = true → (∀ x ∈ xs, holds x) →
      (∀ y ∈ complete key xs, good y) ∧ ∀ y ∈ incomplete key xs, good y)
    (key : CStr) (evs : List YamlEvent) (free : NulFree key) :
    ∀ y ∈ ((value.mapping accepts complete incomplete).read key evs).1, good y := by
  simp only [ValueReader.mapping]
  split
  · next rest =>
      split
      · next accepted =>
          have both := whole key _ free accepted (readMapping_forall each rest)
          split
          · exact both.2
          · exact both.1
      · exact fun y member => absurd member List.not_mem_nil
  · exact fun y member => absurd member List.not_mem_nil

theorem scalarValue_clean (key : CStr) (evs : List YamlEvent) (free : NulFree key) :
    ∀ f ∈ (scalarValue.read key evs).1, NulFree f.1 ∧ NulFree f.2 := by
  intro f member
  simp only [scalarValue] at member
  split at member
  · next v rest =>
      obtain rfl := List.mem_singleton.mp member
      refine ⟨free, fun inside => ?_⟩
      exact absurd (List.mem_takeWhile_imp inside) (by decide)
  · cases member

theorem entryValue_clean (accepts : CStr → Bool) (key : CStr) (evs : List YamlEvent)
    (free : NulFree key) : ∀ e ∈ ((entryValue accepts).read key evs).1, e.Clean := by
  refine mapping_forall scalarValue_clean ?_ key evs free
  intro key fields free _ clean
  refine ⟨fun e member => ?_, fun e member => absurd member List.not_mem_nil⟩
  obtain rfl := List.mem_singleton.mp member
  exact ⟨free, clean⟩

/-- The texts of a section hold no NUL. -/
def Section.Clean (s : Section) : Prop :=
  (∀ e ∈ s.opEntries, e.Clean) ∧ (∀ e ∈ s.mcastEntries, e.Clean) ∧
    (∀ set ∈ s.sets, NulFree set.1 ∧ ∀ e ∈ set.2, e.Clean) ∧ ∀ f ∈ s.scalars, NulFree f.2

namespace Section

variable {entries : List Entry} {sets : List (CStr × List Entry)}

theorem clean_operations (clean : ∀ e ∈ entries, e.Clean) : (Section.operations entries).Clean :=
  ⟨clean, by simp [mcastEntries], by simp [Section.sets], by simp [scalars]⟩

theorem clean_mcastGroups (clean : ∀ e ∈ entries, e.Clean) :
    (Section.mcastGroups entries).Clean :=
  ⟨by simp [opEntries], clean, by simp [Section.sets], by simp [scalars]⟩

theorem clean_attributeSets (clean : ∀ set ∈ sets, NulFree set.1 ∧ ∀ e ∈ set.2, e.Clean) :
    (Section.attributeSets sets).Clean :=
  ⟨by simp [opEntries], by simp [mcastEntries], clean, by simp [scalars]⟩

theorem clean_scalar (key : CStr) {value : CStr} (free : NulFree value) :
    (Section.scalar key value).Clean :=
  ⟨by simp [opEntries], by simp [mcastEntries], by simp [Section.sets],
    List.forall_mem_singleton.mpr free⟩

end Section

theorem setValue_clean (key : CStr) (evs : List YamlEvent) (free : NulFree key) :
    ∀ set ∈ (setValue.read key evs).1, NulFree set.1 ∧ ∀ e ∈ set.2, e.Clean := by
  refine mapping_forall (entryValue_clean isAttrKey) ?_ key evs free
  intro key attrs free _ clean
  exact ⟨List.forall_mem_singleton.mpr ⟨free, clean⟩, List.forall_mem_singleton.mpr ⟨free, clean⟩⟩

theorem sectionValue_clean (key : CStr) (evs : List YamlEvent) (free : NulFree key) :
    ∀ s ∈ (sectionValue.read key evs).1, s.Clean := by
  simp only [sectionValue]
  split
  · refine mapping_forall (entryValue_clean _) ?_ key evs free
    intro key entries _ _ clean
    have whole := List.forall_mem_singleton.mpr (Section.clean_operations clean)
    exact ⟨whole, whole⟩
  split
  · refine mapping_forall (entryValue_clean _) ?_ key evs free
    intro key entries _ _ clean
    have whole := List.forall_mem_singleton.mpr (Section.clean_mcastGroups clean)
    exact ⟨whole, whole⟩
  split
  · refine mapping_forall setValue_clean ?_ key evs free
    intro key sets _ _ clean
    have whole := List.forall_mem_singleton.mpr (Section.clean_attributeSets clean)
    exact ⟨whole, whole⟩
  · intro s member
    obtain ⟨f, isField, rfl⟩ := List.mem_map.mp member
    exact Section.clean_scalar f.1 (scalarValue_clean key evs free f isField).2

/-- **What is read of a file are C strings.** -/
theorem OverlayFile.sections_clean (file : OverlayFile) : ∀ s ∈ file.sections, s.Clean := by
  cases file with
  | absent => exact fun s member => absurd member List.not_mem_nil
  | unreadable => exact fun s member => absurd member List.not_mem_nil
  | events evs =>
      rw [OverlayFile.sections]
      unfold readDocument
      split
      · exact readMapping_forall sectionValue_clean _
      · exact fun s member => absurd member List.not_mem_nil

/-- Assigning the fields of an entry keeps what every assignment keeps. -/
theorem foldl_assign_forall {ρ : Type} {assign : ρ → CStr → CStr → ρ} {holds : ρ → Prop}
    (keeps : ∀ row key val, NulFree val → holds row → holds (assign row key val))
    {fields : List (CStr × CStr)} (clean : ∀ f ∈ fields, NulFree f.1 ∧ NulFree f.2) {row : ρ}
    (start : holds row) : holds (fields.foldl (fun row f => assign row f.1 f.2) row) := by
  induction fields generalizing row with
  | nil => exact start
  | cons f fields ih =>
      exact ih (fun g member => clean g (List.mem_cons_of_mem _ member))
        (keeps row f.1 f.2 (clean f List.mem_cons_self).2 start)

theorem nulFree_some {t : CStr} (free : NulFree t) : NulFree? (some t) := by
  intro t' same
  exact Option.some.inj same ▸ free

theorem nulFree_none : NulFree? none := by
  intro t impossible
  cases impossible

theorem opRow_clean {e : Entry} (clean : e.Clean) : (opRow e).Clean := by
  refine foldl_assign_forall ?_ clean.2 ⟨?_, nulFree_none, nulFree_none⟩
  · intro row key val free ⟨name, short, long⟩
    rw [assignOp]
    split
    · exact ⟨nulFree_some free, short, long⟩
    split
    · exact ⟨name, nulFree_some free, long⟩
    split
    · exact ⟨name, short, nulFree_some free⟩
    · exact ⟨name, short, long⟩
  · rw [opKey]
    split
    · exact nulFree_none
    · exact nulFree_some clean.1

theorem mcastRow_clean {e : Entry} (clean : e.Clean) : (mcastRow e).Clean := by
  refine foldl_assign_forall ?_ clean.2 ⟨⟨e.key, rfl, clean.1⟩, nulFree_none, nulFree_none⟩
  intro row key val free ⟨name, short, long⟩
  rw [assignMcast]
  split
  · exact ⟨name, nulFree_some free, long⟩
  split
  · exact ⟨name, short, nulFree_some free⟩
  · exact ⟨name, short, long⟩

theorem attrRow_clean {e : Entry} (clean : e.Clean) : (attrRow e).Clean := by
  refine foldl_assign_forall ?_ clean.2 ⟨nulFree_none, nulFree_none⟩
  intro attr key val free ⟨name, type⟩
  rw [assignAttr]
  split
  · exact ⟨nulFree_some free, type⟩
  split
  · exact ⟨name, nulFree_some free⟩
  · exact ⟨name, type⟩

/-- What the descriptions of others keep holds of the merged rows. -/
theorem merged_forall {H : Type} {text : H → CStr} {holds : OpOverlay H → Prop}
    (keeps : ∀ row cur, holds row → holds cur → holds (row.describedBy cur))
    {rows : List (OpOverlay H)} (each : ∀ row ∈ rows, holds row) :
    ∀ row ∈ merged text rows, holds row ∧ row.IdKeyed := by
  have run (named : List (OpOverlay H)) (keyed : List (OpOverlay H))
      (names : ∀ row ∈ named, holds row) (ids : ∀ row ∈ keyed, holds row ∧ row.IdKeyed) :
      ∀ row ∈ named.foldl (describe text) keyed, holds row ∧ row.IdKeyed := by
    induction named generalizing keyed with
    | nil => exact ids
    | cons cur named ih =>
        refine ih _ (fun row member => names row (List.mem_cons_of_mem _ member)) ?_
        intro row member
        refine ⟨?_, keyed_describe (fun row member => (ids row member).2) row member⟩
        rw [describe] at member
        rcases List.exists_or_eq_self_of_replaceF _ keyed with
          same | ⟨a, a', before, after, -, found, rfl, split⟩
        · exact (ids row (same ▸ member)).1
        · rw [split] at member
          split at found
          · obtain rfl := Option.some.inj found
            rcases List.mem_append.mp member with member | member
            · exact (ids row (List.mem_append_left _ member)).1
            rcases List.mem_cons.mp member with rfl | member
            · exact keeps a cur (ids a (by simp)).1 (names cur List.mem_cons_self)
            · exact (ids row (by simp [member])).1
          · cases found
  refine run _ _ ?_ ?_
  · exact fun row member => each row (List.mem_of_mem_filter member)
  · intro row member
    obtain ⟨inRows, keyed⟩ := List.mem_filter.mp member
    exact ⟨each row inRows, by simpa using keyed⟩

/-- Rows that all have an id are merged as they are. -/
theorem merged_keyed {H : Type} {text : H → CStr} {rows : List (OpOverlay H)}
    (keyed : ∀ row ∈ rows, row.IdKeyed) : merged text rows = rows := by
  have none : (rows.filter fun row => ¬row.IdKeyed) = [] := by
    rw [List.filter_eq_nil_iff]
    intro row member
    simpa using keyed row member
  have all : rows.filter (·.IdKeyed) = rows := by
    rw [List.filter_eq_self]
    intro row member
    simpa using keyed row member
  rw [merged, none, all, List.foldl_nil]

/-! ## The overlay of two files -/

theorem loadOneFile_familyName (out : FamilyOverlay) (file : OverlayFile) :
    (loadOneFile out file).out.familyName =
      file.scalars.foldl (takeUnder (lit "family")) out.familyName := by
  refine loadOneFile_scalar (·.familyName) (fun _ _ => rfl) (fun _ _ => rfl)
    (fun _ _ => rfl) ?_ out file
  intro l key value
  simp only [OverlayLoader.assignTop, takeUnder]
  split
  · rfl
  split
  · rfl
  split
  · rfl
  · rfl

theorem overlayOf_familyName (generated curated : OverlayFile) :
    (overlayOf generated curated).familyName =
      (generated.scalars ++ curated.scalars).foldl (takeUnder (lit "family")) none := by
  rw [List.foldl_append]
  apply (loadOneFile_familyName _ curated).trans
  rw [loadOneFile_familyName]
  rfl

/-- What is taken up under a key is the text of a scalar. -/
theorem takeUnder_clean (want : CStr) {fields : List (CStr × CStr)}
    (clean : ∀ f ∈ fields, NulFree f.2) {held : Option CStr} (start : NulFree? held) :
    NulFree? (fields.foldl (takeUnder want) held) := by
  induction fields generalizing held with
  | nil => exact start
  | cons f fields ih =>
      refine ih (fun g member => clean g (List.mem_cons_of_mem _ member)) ?_
      rw [takeUnder]
      split
      · exact nulFree_some (clean f List.mem_cons_self)
      · exact start

/-- **Every overlay that is loaded can be written**, and its operations have ids. -/
theorem overlayOf_clean (generated curated : OverlayFile) :
    (overlayOf generated curated).Clean ∧
      ∀ row ∈ (overlayOf generated curated).ops.items, row.IdKeyed := by
  -- Every part is made of what the sections of the two files hold.
  have sections {α : Type} (held : Section → List α) {holds : α → Prop}
      (of : ∀ s : Section, s.Clean → ∀ x ∈ held s, holds x) :
      ∀ x ∈ generated.sections.flatMap held ++ curated.sections.flatMap held, holds x := by
    intro x member
    rcases List.mem_append.mp member with inFile | inFile
    · obtain ⟨s, isSection, isHeld⟩ := List.mem_flatMap.mp inFile
      exact of s (generated.sections_clean s isSection) x isHeld
    · obtain ⟨s, isSection, isHeld⟩ := List.mem_flatMap.mp inFile
      exact of s (curated.sections_clean s isSection) x isHeld
  have scalars := sections Section.scalars fun s clean => clean.2.2.2
  have rows : ∀ row ∈ (generated.opEntries ++ curated.opEntries).map opRow, row.Clean := by
    intro row member
    obtain ⟨e, isEntry, rfl⟩ := List.mem_map.mp member
    exact opRow_clean (sections Section.opEntries (fun s clean => clean.1) e isEntry)
  have ops : ∀ row ∈ (overlayOf generated curated).ops.items, row.Clean ∧ row.IdKeyed := by
    rw [overlayOf_ops]
    refine merged_forall ?_ rows
    intro row cur clean described
    exact ⟨clean.name, described.shortDesc, described.longDesc⟩
  refine ⟨⟨?_, ?_, ?_, fun row member => (ops row member).1, ?_, ?_⟩,
    fun row member => (ops row member).2⟩
  · rw [overlayOf_familyName]
    exact takeUnder_clean _ scalars nulFree_none
  · rw [overlayOf_shortDesc]
    exact takeUnder_clean _ scalars nulFree_none
  · rw [overlayOf_longDesc]
    exact takeUnder_clean _ scalars nulFree_none
  · rw [overlayOf_mcast]
    intro group member
    obtain ⟨e, isEntry, rfl⟩ := List.mem_map.mp member
    exact mcastRow_clean
      (sections Section.mcastEntries (fun s clean => clean.2.1) e isEntry)
  · rw [overlayOf_attrSets]
    intro set member
    obtain ⟨entries, isSet, rfl⟩ := List.mem_map.mp member
    obtain ⟨free, clean⟩ :=
      sections Section.sets (fun s clean => clean.2.2.1) entries isSet
    refine ⟨free, fun a isAttr => ?_⟩
    obtain ⟨e, isEntry, rfl⟩ := List.mem_map.mp isAttr
    exact attrRow_clean (clean e isEntry)

/-- Two overlays say the same: they may differ in the slots of their arrays. -/
structure FamilyOverlay.SameContents (o o' : FamilyOverlay) : Prop where
  familyName : o.familyName = o'.familyName
  shortDesc : o.shortDesc = o'.shortDesc
  longDesc : o.longDesc = o'.longDesc
  ops : o.ops.items = o'.ops.items
  mcast : o.mcast.items = o'.mcast.items
  attrSets : o.attrSets.items.map (·.row) = o'.attrSets.items.map (·.row)

/-- A set of the same name and attributes answers alike. -/
theorem sameAttrLookups_of_row {set set' : Option AttrSetOverlay}
    (same : set.map (·.row) = set'.map (·.row)) : SameAttrLookups set set' := by
  cases set with
  | none =>
      cases set' with
      | none => exact ⟨rfl, fun _ => rfl, fun _ => rfl, fun _ => rfl⟩
      | some set' => cases same
  | some set =>
      cases set' with
      | none => cases same
      | some set' =>
          obtain ⟨name, attrs⟩ := Prod.mk.inj (Option.some.inj same)
          refine ⟨congrArg some name, fun id => ?_, fun text => ?_, fun id => ?_⟩
          · simp only [attrSetLookupName, Option.bind_some, attrs]
          · simp only [attrSetLookupId, Option.bind_some, attrs]
          · simp only [attrSetLookupType, Option.bind_some, attrs]

/-- **Overlays that say the same answer every lookup alike.** -/
theorem FamilyOverlay.SameContents.lookups {o o' : FamilyOverlay} (same : o.SameContents o') :
    SameLookups (some o) (some o') := by
  refine ⟨same.shortDesc, same.longDesc, fun id => ?_, fun name => ?_, fun setName => ?_⟩
  · simp only [findOp, Option.bind_some, same.ops]
  · simp only [findMcast, Option.bind_some, same.mcast]
  · have rows := congrArg (List.find? fun row : CStr × List AttrOverlay => row.1 == setName)
      same.attrSets
    rw [List.find?_map, List.find?_map] at rows
    exact sameAttrLookups_of_row rows

/-- Overlays that say the same are written alike. -/
theorem FamilyOverlay.SameContents.file {o o' : FamilyOverlay} (same : o.SameContents o') :
    o.file = o'.file := by
  have through (sets : List AttrSetOverlay) :
      sets.map setEntries = (sets.map (·.row)).map fun row => (row.1, row.2.map attrEntry) := by
    rw [List.map_map]
    rfl
  have sets : o.attrSets.items.map setEntries = o'.attrSets.items.map setEntries := by
    rw [through, same.attrSets, ← through]
  have top : o.topFields = o'.topFields := by
    rw [FamilyOverlay.topFields, same.familyName, same.shortDesc, same.longDesc]
    rfl
  rw [FamilyOverlay.file, FamilyOverlay.sections, top, same.ops, same.mcast, sets]
  rfl

/-- The sections of an overlay hold its rows. -/
theorem sections_rows {o : FamilyOverlay} (clean : o.Clean) :
    (o.sections.flatMap Section.opEntries).map opRow = o.ops.items ∧
      (o.sections.flatMap Section.mcastEntries).map mcastRow = o.mcast.items ∧
      (o.sections.flatMap Section.sets).map setRow = o.attrSets.items.map (·.row) ∧
      o.sections.flatMap Section.scalars = o.topFields := by
  have only {α : Type} {held : Section → List α} (none : ∀ key value, held (.scalar key value) = [])
      (fields : List (CStr × CStr)) :
      (fields.map fun f => Section.scalar f.1 f.2).flatMap held = [] := by
    rw [List.flatMap_map, List.flatMap_eq_nil_iff]
    exact fun f _ => none f.1 f.2
  refine ⟨?_, ?_, ?_, ?_⟩
  · rw [FamilyOverlay.sections, List.flatMap_append, only fun _ _ => rfl]
    simp only [List.nil_append, List.flatMap_cons, List.flatMap_nil, Section.opEntries,
      List.append_nil, List.map_map]
    exact (List.map_congr_left fun row _ => opRow_opEntry row).trans (List.map_id _)
  · rw [FamilyOverlay.sections, List.flatMap_append, only fun _ _ => rfl]
    simp only [List.nil_append, List.flatMap_cons, List.flatMap_nil, Section.mcastEntries,
      List.append_nil, List.map_map]
    refine (List.map_congr_left fun group member => ?_).trans (List.map_id _)
    obtain ⟨name, isNamed, -⟩ := (clean.mcast group member).name
    exact mcastRow_mcastEntry ⟨name, isNamed⟩
  · rw [FamilyOverlay.sections, List.flatMap_append, only fun _ _ => rfl]
    simp only [List.nil_append, List.flatMap_cons, List.flatMap_nil, Section.sets,
      List.append_nil, List.map_map]
    exact List.map_congr_left fun set _ => setRow_setEntries set
  · rw [FamilyOverlay.sections, List.flatMap_append, List.flatMap_map]
    simp [Section.scalars]

/-- The scalars of an overlay are taken up as they were. -/
theorem topFields_taken (o : FamilyOverlay) :
    o.topFields.foldl (takeUnder (lit "family")) none = o.familyName ∧
      o.topFields.foldl (takeUnder (lit "short")) none = o.shortDesc ∧
      o.topFields.foldl (takeUnder (lit "long")) none = o.longDesc := by
  have names : lit "short" ≠ lit "family" ∧ lit "long" ≠ lit "family" ∧
      lit "family" ≠ lit "short" ∧ lit "long" ≠ lit "short" ∧ lit "family" ≠ lit "long" ∧
      lit "short" ≠ lit "long" := by decide
  obtain ⟨familyName, shortDesc, longDesc, ops, mcast, attrSets⟩ := o
  cases familyName <;> cases shortDesc <;> cases longDesc <;>
    simp [FamilyOverlay.topFields, optField, takeUnder, names]

/-- **An overlay is loaded from its file**, whatever it was loaded from. -/
theorem overlayOf_file {o : FamilyOverlay} (clean : o.Clean)
    (keyed : ∀ row ∈ o.ops.items, row.IdKeyed) : (overlayOf o.file .absent).SameContents o := by
  obtain ⟨-, sections⟩ := sectionsFile_sections clean.writable
  change o.file.sections = o.sections at sections
  obtain ⟨ops, mcast, sets, scalars⟩ := sections_rows clean
  obtain ⟨family, short, long⟩ := topFields_taken o
  have fields : o.file.scalars ++ OverlayFile.absent.scalars = o.topFields := by
    rw [OverlayFile.scalars, sections, scalars]
    exact List.append_nil _
  refine ⟨?_, ?_, ?_, ?_, ?_, ?_⟩
  · rw [overlayOf_familyName, fields, family]
  · rw [overlayOf_shortDesc, fields, short]
  · rw [overlayOf_longDesc, fields, long]
  · have rows : (o.file.opEntries ++ OverlayFile.absent.opEntries).map opRow = o.ops.items := by
      rw [← ops, OverlayFile.opEntries, sections]
      exact congrArg _ (List.append_nil _)
    rw [overlayOf_ops, rows, merged_keyed keyed]
  · rw [overlayOf_mcast, ← mcast, OverlayFile.mcastEntries, sections]
    exact congrArg _ (List.append_nil _)
  · rw [overlayOf_attrSets, ← sets, OverlayFile.sets, sections]
    exact congrArg _ (List.append_nil _)

/-- The one file, where the generated file of the family is looked for. -/
def FamilyOverlay.onlyFile (o : FamilyOverlay) (base familyName path : CStr) : OverlayFile :=
  if path = generatedPath base familyName then o.file else .absent

/-- The two files of a family are different files. -/
theorem curatedPath_ne (base familyName : CStr) :
    curatedPath base familyName ≠ generatedPath base familyName := by
  intro same
  have lengths := congrArg List.length same
  have genl : (lit "/netlink/genl/").length = 14 := by decide
  have generated : (lit "/netlink/genl/_generated/").length = 25 := by decide
  rw [curatedPath, generatedPath] at lengths
  simp only [List.length_append, genl, generated] at lengths
  omega

/-- **One file says what two files say.** When a family has an overlay, whatever is in its
generated and its curated file, the file that is written from this overlay loads in their
place, and gives an overlay with the same contents, so every lookup answers alike. Writing that
overlay again gives the same file. -/
theorem overlayLoad_flattened {base : CStr} {files : CStr → OverlayFile} {familyName : CStr}
    {o : FamilyOverlay} (loaded : overlayLoad base files familyName = .ok (some o)) :
    ∃ o', overlayLoad base (o.onlyFile base familyName) familyName = .ok (some o') ∧
      o'.SameContents o ∧ SameLookups (some o') (some o) ∧ o'.file = o.file := by
  obtain ⟨⟨shortPath, shortPath', -⟩, same⟩ := overlayLoad_eq_some_iff.mp loaded
  obtain ⟨clean, keyed⟩ : o.Clean ∧ ∀ row ∈ o.ops.items, row.IdKeyed :=
    same ▸ overlayOf_clean _ _
  have contents := overlayOf_file clean keyed
  obtain ⟨complete, -⟩ := sectionsFile_sections clean.writable
  have generated : o.onlyFile base familyName (generatedPath base familyName) = o.file :=
    if_pos rfl
  have curated : o.onlyFile base familyName (curatedPath base familyName) = .absent :=
    if_neg (curatedPath_ne base familyName)
  refine ⟨overlayOf o.file .absent, overlayLoad_eq_some_iff.mpr ⟨⟨shortPath, shortPath', ?_, ?_,
    ?_⟩, ?_⟩, contents, contents.lookups, contents.file⟩
  · rw [generated]
    exact .inr complete
  · rw [curated]
    exact .inl rfl
  · rw [generated]
    exact .inl complete
  · rw [generated, curated]

/-- A generated and a curated file of a family. -/
def acceptFiles (path : CStr) : OverlayFile :=
  if path = generatedPath [] (lit "handshake") then
    sectionsFile [.operations [⟨lit "2", [(lit "name", lit "ACCEPT")]⟩]]
  else if path = curatedPath [] (lit "handshake") then
    sectionsFile [.operations [⟨lit "ACCEPT", [(lit "short", lit "Accept")]⟩]]
  else .absent

/-- The curated description is in the one file. -/
theorem accept_flattened :
    ∃ o o', overlayLoad [] acceptFiles (lit "handshake") = .ok (some o) ∧
      overlayLoad [] (o.onlyFile [] (lit "handshake")) (lit "handshake") = .ok (some o') ∧
      o'.SameContents o ∧ SameLookups (some o') (some o) ∧ o'.file = o.file ∧
        (findOp (some o') 2).map (·.shortDesc) = some (some (lit "Accept")) := by
  obtain ⟨complete, sections⟩ := @sectionsFile_sections
    [.operations [⟨lit "2", [(lit "name", lit "ACCEPT")]⟩]]
    (by simp [Section.Writable, Entry.Clean, NulFree]; decide)
  obtain ⟨complete', sections'⟩ := @sectionsFile_sections
    [.operations [⟨lit "ACCEPT", [(lit "short", lit "Accept")]⟩]]
    (by simp [Section.Writable, Entry.Clean, NulFree]; decide)
  have generated : acceptFiles (generatedPath [] (lit "handshake")) =
      sectionsFile [.operations [⟨lit "2", [(lit "name", lit "ACCEPT")]⟩]] := if_pos rfl
  have curated : acceptFiles (curatedPath [] (lit "handshake")) =
      sectionsFile [.operations [⟨lit "ACCEPT", [(lit "short", lit "Accept")]⟩]] :=
    (if_neg (curatedPath_ne [] (lit "handshake"))).trans (if_pos rfl)
  obtain ⟨o, isOverlay⟩ : ∃ o, overlayOf (acceptFiles (generatedPath [] (lit "handshake")))
      (acceptFiles (curatedPath [] (lit "handshake"))) = o := ⟨_, rfl⟩
  have loaded : overlayLoad [] acceptFiles (lit "handshake") = .ok (some o) := by
    refine overlayLoad_eq_some_iff.mpr ⟨⟨by decide, by decide, ?_, ?_, ?_⟩, isOverlay⟩
    · exact generated ▸ .inr complete
    · exact curated ▸ .inr complete'
    · exact generated ▸ .inl complete
  obtain ⟨o', loaded', contents, lookups, file⟩ := overlayLoad_flattened loaded
  refine ⟨o, o', loaded, loaded', contents, lookups, file, ?_⟩
  have rows := overlayOf_ops (acceptFiles (generatedPath [] (lit "handshake")))
    (acceptFiles (curatedPath [] (lit "handshake")))
  rw [isOverlay, generated, curated, OverlayFile.opEntries, OverlayFile.opEntries, sections,
    sections'] at rows
  rw [lookups.findOp]
  simp only [findOp, Option.bind_some, rows]
  decide +kernel

end Ykern.Overlay
