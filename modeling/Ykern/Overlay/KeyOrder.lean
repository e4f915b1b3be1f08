import Ykern.Overlay.Load
import Ykern.Overlay.Nodes

/-!
# The order of the keys of overlay files

The loader takes the keys of every mapping of an overlay file in any order. What it
leaves are arrays in the order of the files, which every lookup scans for the first row
with a key. Where keys are distinct these scans answer alike whatever the order is
(`overlayOf_reordered`): the fields of an entry are assigned to different fields of its
row, the rows of both files are the same in another order, and so are the merged rows.
-/

set_option autoImplicit false

namespace Ykern.Overlay

/-! ## The fields of a row -/

/-- Assignments to different fields may be made in any order. -/
theorem foldl_assign_perm {ρ : Type} {assign : ρ → CStr → CStr → ρ}
    (commute : ∀ row key key' val val', key ≠ key' →
      assign (assign row key val) key' val' = assign (assign row key' val') key val)
    {fields fields' : List (CStr × CStr)} (distinct : (fields.map (·.1)).Nodup)
    (perm : fields.Perm fields') (row : ρ) :
    fields.foldl (fun row f => assign row f.1 f.2) row =
      fields'.foldl (fun row f => assign row f.1 f.2) row := by
  refine foldl_perm_of_keys ?_ distinct perm row
  intro f f' different row
  exact commute row f.1 f'.1 f.2 f'.2 different

theorem assignOp_comm (row : OpOverlay CStr) (key key' val val' : CStr) (different : key ≠ key') :
    assignOp (assignOp row key val) key' val' = assignOp (assignOp row key' val') key val := by
  unfold assignOp
  split_ifs <;> simp_all

theorem assignMcast_comm (row : McastOverlay) (key key' val val' : CStr)
    (different : key ≠ key') :
    assignMcast (assignMcast row key val) key' val' =
      assignMcast (assignMcast row key' val') key val := by
  unfold assignMcast
  split_ifs <;> simp_all

theorem assignAttr_comm (attr : AttrOverlay) (key key' val val' : CStr)
    (different : key ≠ key') :
    assignAttr (assignAttr attr key val) key' val' =
      assignAttr (assignAttr attr key' val') key val := by
  unfold assignAttr
  split_ifs <;> simp_all

/-- No field of an entry is there twice. -/
def Entry.FieldsDistinct (e : Entry) : Prop := (e.fields.map (·.1)).Nodup

instance (e : Entry) : Decidable e.FieldsDistinct := inferInstanceAs (Decidable (List.Nodup _))

section Rows

variable {e e' : Entry}

theorem opRow_reordered (distinct : e.FieldsDistinct) (same : e.Reordered e') :
    opRow e = opRow e' := by
  rw [opRow, opRow, same.1]
  exact foldl_assign_perm assignOp_comm distinct same.2 _

theorem mcastRow_reordered (distinct : e.FieldsDistinct) (same : e.Reordered e') :
    mcastRow e = mcastRow e' := by
  rw [mcastRow, mcastRow, same.1]
  exact foldl_assign_perm assignMcast_comm distinct same.2 _

theorem attrRow_reordered (distinct : e.FieldsDistinct) (same : e.Reordered e') :
    attrRow e = attrRow e' := by
  rw [attrRow, attrRow, same.1]
  exact foldl_assign_perm assignAttr_comm distinct same.2 _

end Rows

/-- A scalar of the top-level mapping is taken up wherever it is. -/
theorem takeUnder_perm (want : CStr) {scalars scalars' : List (CStr × CStr)}
    (distinct : (scalars.map (·.1)).Nodup) (perm : scalars.Perm scalars')
    (held : Option CStr) :
    scalars.foldl (takeUnder want) held = scalars'.foldl (takeUnder want) held := by
  refine foldl_perm_of_keys ?_ distinct perm held
  intro f f' different held
  unfold takeUnder
  split_ifs <;> simp_all

/-! ## Files in another order -/

/-- A file whose mappings have their entries in another order, at any level. -/
inductive OverlayFile.Reordered : OverlayFile → OverlayFile → Prop where
  | same (file : OverlayFile) : Reordered file file
  | document {node node' : YamlNode} (reordered : node.Reordered node')
      (rest rest' : List YamlEvent) :
      Reordered (.events (.streamStart :: .documentStart :: (node.events ++ rest)))
        (.events (.streamStart :: .documentStart :: (node'.events ++ rest')))

namespace OverlayFile

variable {file file' : OverlayFile}

theorem Reordered.absent_iff (reordered : file.Reordered file') :
    file = .absent ↔ file' = .absent := by
  cases reordered with
  | same => exact Iff.rfl
  | document => simp

/-- Both documents are complete with their sections in another order, or neither is. -/
theorem Reordered.complete_sections (reordered : file.Reordered file') :
    (file.Complete ↔ file'.Complete) ∧
      (file.Loads → PermWith Section.Reordered file.sections file'.sections) := by
  cases reordered with
  | same => exact ⟨Iff.rfl, fun _ => .refl Section.Reordered.refl _⟩
  | @document node node' reordered rest rest' =>
      have read := readDocument_node node rest
      have read' := readDocument_node node' rest'
      have same := YamlNode.sectionsOf_reordered reordered
      simp only [Loads, Complete, sections, reduceCtorEq, false_or]
      generalize node.sectionsOf = sections, node'.sectionsOf = sections' at read read' same
      cases same with
      | none =>
          have incomplete : (readDocument _).2 = none := read
          have incomplete' : (readDocument _).2 = none := read'
          simp [incomplete, incomplete']
      | some perm =>
          have complete : readDocument _ = (_, some rest) := read
          have complete' : readDocument _ = (_, some rest') := read'
          simpa [complete, complete'] using perm

end OverlayFile

/-! ## Distinct keys -/

/-- The keys of the two files of a family are distinct, where that matters to a lookup: no
mapping of scalars repeats one, rows with an id have distinct ids and names, one row without
an id at most has each of these names, and groups, sets and the attributes of each set are
told apart by what they are looked up by. -/
structure KeysDistinct (generated curated : OverlayFile) : Prop where
  scalars : ∀ file ∈ [generated, curated], (file.scalars.map (·.1)).Nodup
  opFields : ∀ e ∈ generated.opEntries ++ curated.opEntries, e.FieldsDistinct
  mcastFields : ∀ e ∈ generated.mcastEntries ++ curated.mcastEntries, e.FieldsDistinct
  attrFields : ∀ set ∈ generated.sets ++ curated.sets, ∀ e ∈ set.2, e.FieldsDistinct
  ids : ((((generated.opEntries ++ curated.opEntries).map opRow).filter (·.IdKeyed)).map
    (·.cmdId)).Nodup
  names : (((generated.opEntries ++ curated.opEntries).map opRow).filter (·.IdKeyed)).Pairwise
    fun row other => ¬SameName id row other
  named : ∀ row ∈ (generated.opEntries ++ curated.opEntries).map opRow, row.IdKeyed →
    ∀ cur ∈ (generated.opEntries ++ curated.opEntries).map opRow,
    ∀ cur' ∈ (generated.opEntries ++ curated.opEntries).map opRow, ¬cur.IdKeyed →
      ¬cur'.IdKeyed → SameName id row cur → SameName id row cur' → cur = cur'
  groups : ((generated.mcastEntries ++ curated.mcastEntries).map (·.key)).Nodup
  sets : ((generated.sets ++ curated.sets).map (·.1)).Nodup
  attrIds : ∀ set ∈ generated.sets ++ curated.sets, (set.2.map fun e => (attrRow e).attrId).Nodup
  attrNames : ∀ set ∈ generated.sets ++ curated.sets,
    (set.2.filterMap fun e => (attrRow e).name).Nodup

/-! ## Lookups -/

/-- Two attribute sets are both there, with the same name, or both not, and the lookups in them
answer the same. -/
structure SameAttrLookups (set set' : Option AttrSetOverlay) : Prop where
  setName : set.map (·.setName) = set'.map (·.setName)
  lookupName : ∀ attrId, attrSetLookupName set attrId = attrSetLookupName set' attrId
  lookupId : ∀ name, (set.bind fun set => attrSetLookupId set name) =
    set'.bind fun set => attrSetLookupId set name
  lookupType : ∀ attrId, attrSetLookupType set attrId = attrSetLookupType set' attrId

/-- The lookups in two overlays answer the same. -/
structure SameLookups (o o' : Option FamilyOverlay) : Prop where
  shortDesc : o.bind (·.shortDesc) = o'.bind (·.shortDesc)
  longDesc : o.bind (·.longDesc) = o'.bind (·.longDesc)
  findOp : ∀ cmdId, findOp o cmdId = findOp o' cmdId
  findMcast : ∀ name, findMcast o name = findMcast o' name
  attrSet : ∀ setName, SameAttrLookups (findAttrSet o setName) (findAttrSet o' setName)

/-- Two attribute sets with the same name and the same attributes, which have distinct ids and
distinct names. -/
structure SameSet (set set' : AttrSetOverlay) : Prop where
  setName : set.setName = set'.setName
  attrs : set.attrs.items.Perm set'.attrs.items
  ids : (set.attrs.items.map (·.attrId)).Nodup
  names : (set.attrs.items.filterMap (·.name)).Nodup

namespace SameSet

variable {set set' : AttrSetOverlay}

/-- The attribute of an id is the same. -/
theorem find_id (same : SameSet set set') (attrId : UInt32) :
    (set.attrs.items.find? fun a => a.attrId == attrId) =
      set'.attrs.items.find? fun a => a.attrId == attrId :=
  find?_key_congr (uniqueAt_of_nodup same.ids attrId) fun _ _ => same.attrs.mem_iff

/-- The id of a name is the same. -/
theorem lookupId (same : SameSet set set') (name : CStr) :
    attrSetLookupId set name = attrSetLookupId set' name := by
  have found : (set.attrs.items.find? fun a => a.name == some name) =
      set'.attrs.items.find? fun a => a.name == some name :=
    find?_key_congr (uniqueAt_of_nodup_filterMap same.names name) fun _ _ => same.attrs.mem_iff
  rw [attrSetLookupId, attrSetLookupId, found]

end SameSet

/-! ## The overlays of files in another order -/

/-- Reordered sections hold the same in another order. -/
theorem Section.Reordered.parts {s s' : Section} (reordered : s.Reordered s') :
    PermWith Entry.Reordered s.opEntries s'.opEntries ∧
      PermWith Entry.Reordered s.mcastEntries s'.mcastEntries ∧
      PermWith SetReordered s.sets s'.sets ∧ s.scalars = s'.scalars := by
  have nothing {β : Type} {R : β → β → Prop} : PermWith R [] [] := .of_forall₂ .nil
  cases reordered with
  | operations entries => exact ⟨entries, nothing, nothing, rfl⟩
  | mcastGroups entries => exact ⟨nothing, entries, nothing, rfl⟩
  | attributeSets sets => exact ⟨nothing, nothing, sets, rfl⟩
  | scalar key value => exact ⟨nothing, nothing, nothing, rfl⟩

section Sections

variable {file file' : OverlayFile}
  (same : PermWith Section.Reordered file.sections file'.sections)

include same

theorem opEntries_reordered : PermWith Entry.Reordered file.opEntries file'.opEntries :=
  same.flatMap fun _ _ reordered => reordered.parts.1

theorem mcastEntries_reordered : PermWith Entry.Reordered file.mcastEntries file'.mcastEntries :=
  same.flatMap fun _ _ reordered => reordered.parts.2.1

theorem sets_reordered : PermWith SetReordered file.sets file'.sets :=
  same.flatMap fun _ _ reordered => reordered.parts.2.2.1

theorem scalars_reordered : file.scalars.Perm file'.scalars := by
  apply PermWith.perm
  apply same.flatMap
  intro s s' reordered
  rw [reordered.parts.2.2.2]
  exact .refl (fun _ => rfl) _

end Sections

/-- The set of a name has the row of the entry of this name. -/
theorem findAttrSet_row (generated curated : OverlayFile) (setName : CStr) :
    (findAttrSet (some (overlayOf generated curated)) setName).map (·.row) =
      ((generated.sets ++ curated.sets).find? fun set => set.1 == setName).map setRow := by
  have rows := congrArg (List.find? fun row : CStr × List AttrOverlay => row.1 == setName)
    (overlayOf_attrSets generated curated)
  rw [List.find?_map, List.find?_map] at rows
  exact rows

theorem mcastRow_name (e : Entry) : (mcastRow e).name = some e.key := by
  refine proj_foldl_kept McastOverlay.name ?_ _ e.fields
  intro row f
  rw [assignMcast]
  split
  · rfl
  split
  · rfl
  · rfl

section Overlays

variable {generated generated' curated curated' : OverlayFile}
  (distinct : KeysDistinct generated curated)
  (sameGenerated : PermWith Section.Reordered generated.sections generated'.sections)
  (sameCurated : PermWith Section.Reordered curated.sections curated'.sections)

include distinct sameGenerated sameCurated

/-- A scalar of the family is the same. -/
theorem scalar_reordered (want : CStr) :
    (generated.scalars ++ curated.scalars).foldl (takeUnder want) none =
      (generated'.scalars ++ curated'.scalars).foldl (takeUnder want) none := by
  rw [List.foldl_append, List.foldl_append,
    takeUnder_perm want (distinct.scalars generated (by simp)) (scalars_reordered sameGenerated),
    takeUnder_perm want (distinct.scalars curated (by simp)) (scalars_reordered sameCurated)]

/-- The operation of an id is the same. -/
theorem findOp_reordered (cmdId : UInt32) :
    findOp (some (overlayOf generated curated)) cmdId =
      findOp (some (overlayOf generated' curated')) cmdId := by
  have entries := (opEntries_reordered sameGenerated).append (opEntries_reordered sameCurated)
  have rows := entries.map_perm fun e member e' same =>
    opRow_reordered (distinct.opFields e member) same
  have perm := merged_perm distinct.names distinct.named rows
  have ids : ((merged id ((generated.opEntries ++ curated.opEntries).map opRow)).map
      (·.cmdId)).Nodup := by
    have keys := congrArg (List.map Prod.fst)
      (merged_keys id ((generated.opEntries ++ curated.opEntries).map opRow))
    rw [List.map_map, List.map_map] at keys
    exact keys ▸ distinct.ids
  simp only [findOp, Option.bind_some, overlayOf_ops]
  exact find?_key_congr (uniqueAt_of_nodup ids cmdId) fun _ _ => perm.mem_iff

/-- The multicast group of a name is the same. -/
theorem findMcast_reordered (name : Option CStr) :
    findMcast (some (overlayOf generated curated)) name =
      findMcast (some (overlayOf generated' curated')) name := by
  have entries := (mcastEntries_reordered sameGenerated).append
    (mcastEntries_reordered sameCurated)
  have rows := entries.map_perm fun e member e' same =>
    mcastRow_reordered (distinct.mcastFields e member) same
  have names : (((generated.mcastEntries ++ curated.mcastEntries).map mcastRow).map
      (·.name)).Nodup := by
    have keys : ((generated.mcastEntries ++ curated.mcastEntries).map mcastRow).map (·.name) =
        ((generated.mcastEntries ++ curated.mcastEntries).map (·.key)).map some := by
      rw [List.map_map, List.map_map]
      exact List.map_congr_left fun e _ => mcastRow_name e
    rw [keys]
    exact distinct.groups.map (Option.some_injective _)
  simp only [findMcast, Option.bind_some, overlayOf_mcast]
  cases name with
  | none => rfl
  | some name =>
      exact find?_key_congr (uniqueAt_of_nodup names (some name)) fun _ _ => rows.mem_iff

/-- The attribute set of a name is the same in another order. -/
theorem findAttrSet_reordered (setName : CStr) :
    Option.Rel SameSet (findAttrSet (some (overlayOf generated curated)) setName)
      (findAttrSet (some (overlayOf generated' curated')) setName) := by
  have sets := (sets_reordered sameGenerated).append (sets_reordered sameCurated)
  have found := sets.find?_key (·.1) (·.1) (fun _ _ same => same.1)
    distinct.sets setName
  have row := findAttrSet_row generated curated setName
  have row' := findAttrSet_row generated' curated' setName
  have member (set : CStr × List Entry) : (generated.sets ++ curated.sets).find?
      (fun set => set.1 == setName) = some set → set ∈ generated.sets ++ curated.sets :=
    List.mem_of_find?_eq_some
  generalize List.find? _ (generated.sets ++ curated.sets) = read at found row member
  generalize List.find? _ (generated'.sets ++ curated'.sets) = read' at found row'
  cases found with
  | none =>
      rw [Option.map_none, Option.map_eq_none_iff] at row row'
      rw [row, row']
      exact .none
  | @some entry entry' same =>
      rw [Option.map_some, Option.map_eq_some_iff] at row row'
      obtain ⟨set, isSet, held⟩ := row
      obtain ⟨set', isSet', held'⟩ := row'
      rw [isSet, isSet']
      obtain ⟨name, attrs⟩ := Prod.mk.inj held
      obtain ⟨name', attrs'⟩ := Prod.mk.inj held'
      have inFiles := member entry rfl
      refine .some ⟨?_, ?_, ?_, ?_⟩
      · rw [name, name', same.1]
      · rw [attrs, attrs']
        exact same.2.map_perm fun e isAttr e' reordered =>
          attrRow_reordered (distinct.attrFields entry inFiles e isAttr) reordered
      · rw [attrs, List.map_map]
        exact distinct.attrIds entry inFiles
      · rw [attrs, List.filterMap_map]
        exact distinct.attrNames entry inFiles

/-- **The overlays of reordered files answer every lookup alike.** -/
theorem overlayOf_reordered : SameLookups (some (overlayOf generated curated))
    (some (overlayOf generated' curated')) where
  shortDesc := by
    simp only [Option.bind_some, overlayOf_shortDesc]
    exact scalar_reordered distinct sameGenerated sameCurated (lit "short")
  longDesc := by
    simp only [Option.bind_some, overlayOf_longDesc]
    exact scalar_reordered distinct sameGenerated sameCurated (lit "long")
  findOp := findOp_reordered distinct sameGenerated sameCurated
  findMcast := findMcast_reordered distinct sameGenerated sameCurated
  attrSet := by
    intro setName
    have found := findAttrSet_reordered distinct sameGenerated sameCurated setName
    generalize findAttrSet (some (overlayOf generated curated)) setName = set at found
    generalize findAttrSet (some (overlayOf generated' curated')) setName = set' at found
    cases found with
    | none => exact ⟨rfl, fun _ => rfl, fun _ => rfl, fun _ => rfl⟩
    | some same =>
        refine ⟨congrArg some same.setName, ?_, ?_, ?_⟩
        · intro attrId
          simp only [attrSetLookupName, Option.bind_some, same.find_id]
        · intro name
          exact same.lookupId name
        · intro attrId
          simp only [attrSetLookupType, Option.bind_some, same.find_id]

end Overlays

end Ykern.Overlay
