import Ykern.Foundation.Loops
import Ykern.Overlay.Capacity
import Ykern.Overlay.Merge

/-!
# Loading the overlay of a family

A family has up to two files, one generated and one curated, found under a
metadata directory by the name of the family. Both are loaded into one overlay,
whose operations are then merged. What the merge finds are the rows of the entries
of the generated file followed by those of the curated one
(`findOp_overlayLoad`).
-/

set_option autoImplicit false

namespace Ykern.Overlay

/-- The path of the generated file of a family. -/
def generatedPath (base familyName : CStr) : CStr :=
  base ++ lit "/netlink/genl/_generated/" ++ familyName ++ lit ".yaml"

/-- The path of the curated file of a family. -/
def curatedPath (base familyName : CStr) : CStr :=
  base ++ lit "/netlink/genl/" ++ familyName ++ lit ".yaml"

/-- `ykern_ynetlink_genl_overlay_load`, with the file system as a function from
paths to files. -/
def overlayLoad (base : CStr) (files : CStr → OverlayFile) (familyName : CStr) :
    Except Error (Option FamilyOverlay) :=
  if 4096 ≤ (generatedPath base familyName).length then
    .error ["overlay_load: generated path too long"]
  else if 4096 ≤ (curatedPath base familyName).length then
    .error ["overlay_load: curated path too long"]
  else
    let generated := loadOneFile .zero (files (generatedPath base familyName))
    match generated.loadedAny with
    | .error e => .error ("overlay_load: generated file failed" :: e)
    | .ok loadedGenerated =>
        let curated := loadOneFile generated.out (files (curatedPath base familyName))
        match curated.loadedAny with
        | .error e => .error ("overlay_load: curated file failed" :: e)
        | .ok loadedCurated =>
            if loadedGenerated = false ∧ loadedCurated = false then .ok none
            else
              let out := curated.out
              let ops := (mergeCuratedIntoGenerated id out.ops.items).val
              .ok (some { out with ops := { out.ops with items := ops } })

/-- The accesses of `overlayLoad` to the arrays of the overlay. -/
def overlayLoadLog (base : CStr) (files : CStr → OverlayFile) (familyName : CStr) : ArrayLog :=
  if 4096 ≤ (generatedPath base familyName).length then []
  else if 4096 ≤ (curatedPath base familyName).length then []
  else
    let generated := loadOneFile .zero (files (generatedPath base familyName))
    match generated.loadedAny with
    | .error _ => generated.log
    | .ok _ =>
        generated.log ++ (loadOneFile generated.out (files (curatedPath base familyName))).log

/-- What comes of `overlayLoad` in C, which does not define anything from the first write behind
an array on. -/
def definedLoad (base : CStr) (files : CStr → OverlayFile) (familyName : CStr) :
    Option (Except Error (Option FamilyOverlay)) :=
  if ∀ access ∈ overlayLoadLog base files familyName, access.2.InBounds then
    some (overlayLoad base files familyName)
  else none

/-- The operation entries of a file. -/
def OverlayFile.opEntries (file : OverlayFile) : List Entry :=
  file.sections.flatMap Section.opEntries

/-- The multicast group entries of a file. -/
def OverlayFile.mcastEntries (file : OverlayFile) : List Entry :=
  file.sections.flatMap Section.mcastEntries

/-- The attribute sets of a file. -/
def OverlayFile.sets (file : OverlayFile) : List (CStr × List Entry) :=
  file.sections.flatMap Section.sets

/-! ## What sections append -/

/-- Every section appends what it holds to this part of the overlay. -/
def Appends {β : Type} (part : FamilyOverlay → List β) (held : Section → List β) : Prop :=
  ∀ (l : OverlayLoader) s, part (l.addSection s).out = part l.out ++ held s

/-- Loading a file appends what its sections hold. -/
theorem Appends.loadOneFile {β : Type} {part : FamilyOverlay → List β} {held : Section → List β}
    (appends : Appends part held) (out : FamilyOverlay) (file : OverlayFile) :
    part (loadOneFile out file).out = part out ++ file.sections.flatMap held := by
  rw [(loadOneFile_state out file).1]
  exact proj_foldl_append (fun l : OverlayLoader => part l.out) appends (.resume out) file.sections

/-- A part of the overlay that only the entries of one kind of section append to. -/
theorem appends_of {β : Type} {part : FamilyOverlay → List β} (ofOp ofMcast : Entry → List β)
    (ofSet : CStr × List Entry → List β)
    (op : ∀ (l : OverlayLoader) e, part (l.addOp e).out = part l.out ++ ofOp e)
    (mcast : ∀ (l : OverlayLoader) e, part (l.addMcast e).out = part l.out ++ ofMcast e)
    (set : ∀ (l : OverlayLoader) set, part (l.addSet set).out = part l.out ++ ofSet set)
    (top : ∀ (l : OverlayLoader) key value, part (l.assignTop key value).out = part l.out) :
    Appends part fun s => s.opEntries.flatMap ofOp ++ s.mcastEntries.flatMap ofMcast ++
      s.sets.flatMap ofSet := by
  intro l s
  cases s with
  | operations entries =>
      apply (proj_foldl_append (fun l : OverlayLoader => part l.out) op l entries).trans
      simp [Section.opEntries, Section.mcastEntries, Section.sets]
  | mcastGroups entries =>
      apply (proj_foldl_append (fun l : OverlayLoader => part l.out) mcast l entries).trans
      simp [Section.opEntries, Section.mcastEntries, Section.sets]
  | attributeSets sets =>
      apply (proj_foldl_append (fun l : OverlayLoader => part l.out) set l sets).trans
      simp [Section.opEntries, Section.mcastEntries, Section.sets]
  | scalar key value =>
      apply (top l key value).trans
      simp [Section.opEntries, Section.mcastEntries, Section.sets]

/-- The scalars of the top-level mapping leave the arrays as they are. -/
theorem assignTop_arrays (l : OverlayLoader) (key value : CStr) :
    (l.assignTop key value).out.ops = l.out.ops ∧ (l.assignTop key value).out.mcast = l.out.mcast ∧
      (l.assignTop key value).out.attrSets = l.out.attrSets := by
  unfold OverlayLoader.assignTop
  split
  · exact ⟨rfl, rfl, rfl⟩
  split
  · exact ⟨rfl, rfl, rfl⟩
  split
  · exact ⟨rfl, rfl, rfl⟩
  · exact ⟨rfl, rfl, rfl⟩

/-- Items that hold nothing. -/
theorem nothing {α β : Type} (l : List α) : l.flatMap (fun _ => ([] : List β)) = [] :=
  List.flatMap_eq_nil_iff.mpr fun _ _ => rfl

/-- The rows of operations. -/
theorem ops_appends : Appends (·.ops.items) fun s => s.opEntries.map opRow := by
  have appends : Appends (·.ops.items) _ :=
    appends_of (fun e => [opRow e]) (fun _ => []) (fun _ => [])
      (fun l e => by simp [OverlayLoader.addOp, OverlayLoader.appendOp])
      (fun l e => (List.append_nil _).symm) (fun l set => (List.append_nil _).symm)
      fun l key value => by rw [(assignTop_arrays l key value).1]
  intro l s
  apply (appends l s).trans
  simp only [nothing, List.append_nil, List.map_eq_flatMap]

/-- The multicast groups. -/
theorem mcast_appends : Appends (·.mcast.items) fun s => s.mcastEntries.map mcastRow := by
  have appends : Appends (·.mcast.items) _ :=
    appends_of (fun _ => []) (fun e => [mcastRow e]) (fun _ => [])
      (fun l e => (List.append_nil _).symm)
      (fun l e => by simp [OverlayLoader.addMcast, OverlayLoader.appendMcast])
      (fun l set => (List.append_nil _).symm)
      fun l key value => by rw [(assignTop_arrays l key value).2.1]
  intro l s
  apply (appends l s).trans
  simp only [nothing, List.append_nil, List.nil_append, List.map_eq_flatMap]

/-- What is stored of an attribute set. -/
def AttrSetOverlay.row (set : AttrSetOverlay) : CStr × List AttrOverlay :=
  (set.setName, set.attrs.items)

/-- The row of an attribute set. -/
def setRow (set : CStr × List Entry) : CStr × List AttrOverlay := (set.1, set.2.map attrRow)

/-- The attributes of a set are appended to it. -/
theorem addAttrs_slot (set : Nat) (s : OpenSet) (entries : List Entry) :
    (entries.foldl (OpenSet.addAttr set) s).slot.row =
      (s.slot.setName, s.slot.attrs.items ++ entries.map attrRow) := by
  induction entries generalizing s with
  | nil => simp [AttrSetOverlay.row]
  | cons e entries ih =>
      rw [List.foldl_cons, ih]
      simp [OpenSet.addAttr, OpenSet.appendAttr]

/-- The attribute sets. -/
theorem sets_appends :
    Appends (fun out => out.attrSets.items.map (·.row)) fun s => s.sets.map setRow := by
  have stored (l : OverlayLoader) (set : CStr × List Entry) :
      (l.addSet set).out.attrSets.items.map (·.row) =
        l.out.attrSets.items.map (·.row) ++ [setRow set] := by
    have slot : (set.2.foldl (OpenSet.addAttr l.out.attrSets.count) (.new set.1)).slot.row =
        setRow set := addAttrs_slot _ _ _
    have count : l.out.attrSets.count = (l.out.attrSets.items.map (·.row)).length :=
      (List.length_map _).symm
    simp only [OverlayLoader.addSet, OverlayLoader.storeSet, OverlayLoader.openSet,
      GrowArray.push_items, List.map_set, List.map_append, List.map_cons, List.map_nil, slot]
    rw [count, set_middle]
  have appends : Appends (fun out => out.attrSets.items.map (·.row)) _ :=
    appends_of (fun _ => []) (fun _ => []) (fun set => [setRow set])
      (fun l e => (List.append_nil _).symm) (fun l e => (List.append_nil _).symm) stored
      fun l key value => by rw [(assignTop_arrays l key value).2.2]
  intro l s
  apply (appends l s).trans
  simp only [nothing, List.append_nil, List.nil_append, List.map_eq_flatMap]

section Files

variable (out : FamilyOverlay) (file : OverlayFile)

/-- Loading a file appends the rows of its entries to the operations. -/
theorem loadOneFile_ops :
    (loadOneFile out file).out.ops.items = out.ops.items ++ file.opEntries.map opRow := by
  rw [ops_appends.loadOneFile, OverlayFile.opEntries, List.map_flatMap]

/-- Loading a file appends its multicast groups. -/
theorem loadOneFile_mcast :
    (loadOneFile out file).out.mcast.items = out.mcast.items ++ file.mcastEntries.map mcastRow := by
  rw [mcast_appends.loadOneFile, OverlayFile.mcastEntries, List.map_flatMap]

/-- Loading a file appends its attribute sets. -/
theorem loadOneFile_attrSets :
    (loadOneFile out file).out.attrSets.items.map (·.row) =
      out.attrSets.items.map (·.row) ++ file.sets.map setRow := by
  rw [sets_appends.loadOneFile, OverlayFile.sets, List.map_flatMap]

end Files

/-! ## What scalars are assigned to -/

/-- The scalar of a section. -/
def Section.scalars : Section → List (CStr × CStr)
  | .scalar key value => [(key, value)]
  | _ => []

/-- The scalars of the top-level mapping of a file. -/
def OverlayFile.scalars (file : OverlayFile) : List (CStr × CStr) :=
  file.sections.flatMap Section.scalars

/-- Take up the scalar under a key. -/
def takeUnder (want : CStr) (held : Option CStr) (f : CStr × CStr) : Option CStr :=
  if f.1 = want then some f.2 else held

/-- Loading a file takes up the scalars under the key of this part of the overlay. -/
theorem loadOneFile_scalar (part : FamilyOverlay → Option CStr) {want : CStr}
    (op : ∀ (l : OverlayLoader) e, part (l.addOp e).out = part l.out)
    (mcast : ∀ (l : OverlayLoader) e, part (l.addMcast e).out = part l.out)
    (set : ∀ (l : OverlayLoader) set, part (l.addSet set).out = part l.out)
    (top : ∀ (l : OverlayLoader) key value,
      part (l.assignTop key value).out = takeUnder want (part l.out) (key, value))
    (out : FamilyOverlay) (file : OverlayFile) :
    part (loadOneFile out file).out = file.scalars.foldl (takeUnder want) (part out) := by
  have step (l : OverlayLoader) (s : Section) :
      part (l.addSection s).out = s.scalars.foldl (takeUnder want) (part l.out) := by
    cases s with
    | operations entries => exact proj_foldl_kept (fun l : OverlayLoader => part l.out) op l entries
    | mcastGroups entries =>
        exact proj_foldl_kept (fun l : OverlayLoader => part l.out) mcast l entries
    | attributeSets sets => exact proj_foldl_kept (fun l : OverlayLoader => part l.out) set l sets
    | scalar key value => exact top l key value
  have run (l : OverlayLoader) (sections : List Section) :
      part (sections.foldl OverlayLoader.addSection l).out =
        (sections.flatMap Section.scalars).foldl (takeUnder want) (part l.out) := by
    induction sections generalizing l with
    | nil => rfl
    | cons s sections ih => rw [List.foldl_cons, ih, step, List.flatMap_cons, List.foldl_append]
  rw [(loadOneFile_state out file).1]
  exact run (.resume out) file.sections

theorem loadOneFile_shortDesc (out : FamilyOverlay) (file : OverlayFile) :
    (loadOneFile out file).out.shortDesc =
      file.scalars.foldl (takeUnder (lit "short")) out.shortDesc := by
  have family : lit "family" ≠ lit "short" := by decide
  refine loadOneFile_scalar (·.shortDesc) (fun _ _ => rfl) (fun _ _ => rfl)
    (fun _ _ => rfl) ?_ out file
  intro l key value
  simp only [OverlayLoader.assignTop, takeUnder]
  split
  · next isFamily => rw [if_neg (isFamily ▸ family)]
  split
  · rfl
  split
  · rfl
  · rfl

theorem loadOneFile_longDesc (out : FamilyOverlay) (file : OverlayFile) :
    (loadOneFile out file).out.longDesc =
      file.scalars.foldl (takeUnder (lit "long")) out.longDesc := by
  have family : lit "family" ≠ lit "long" := by decide
  have short : lit "short" ≠ lit "long" := by decide
  refine loadOneFile_scalar (·.longDesc) (fun _ _ => rfl) (fun _ _ => rfl)
    (fun _ _ => rfl) ?_ out file
  intro l key value
  simp only [OverlayLoader.assignTop, takeUnder]
  split
  · next isFamily => rw [if_neg (isFamily ▸ family)]
  split
  · next isShort => rw [if_neg (isShort ▸ short)]
  split
  · rfl
  · rfl

/-! ## The overlay of two files -/

/-- The overlay that is loaded from the two files of a family. -/
def overlayOf (generated curated : OverlayFile) : FamilyOverlay :=
  let out := (loadOneFile (loadOneFile .zero generated).out curated).out
  { out with
    ops := { out.ops with items := (mergeCuratedIntoGenerated id out.ops.items).val } }

section Overlay

variable (generated curated : OverlayFile)

theorem overlayOf_shortDesc : (overlayOf generated curated).shortDesc =
    (generated.scalars ++ curated.scalars).foldl (takeUnder (lit "short")) none := by
  rw [List.foldl_append]
  apply (loadOneFile_shortDesc _ curated).trans
  rw [loadOneFile_shortDesc]
  rfl

theorem overlayOf_longDesc : (overlayOf generated curated).longDesc =
    (generated.scalars ++ curated.scalars).foldl (takeUnder (lit "long")) none := by
  rw [List.foldl_append]
  apply (loadOneFile_longDesc _ curated).trans
  rw [loadOneFile_longDesc]
  rfl

/-- The operations are the merged rows of the entries of both files. -/
theorem overlayOf_ops : (overlayOf generated curated).ops.items =
    merged id ((generated.opEntries ++ curated.opEntries).map opRow) := by
  apply (mergeCuratedIntoGenerated_merged id _).1.trans
  rw [loadOneFile_ops, loadOneFile_ops, List.map_append]
  rfl

/-- The multicast groups are those of both files. -/
theorem overlayOf_mcast : (overlayOf generated curated).mcast.items =
    (generated.mcastEntries ++ curated.mcastEntries).map mcastRow := by
  apply (loadOneFile_mcast _ curated).trans
  rw [loadOneFile_mcast, List.map_append]
  rfl

/-- The attribute sets are those of both files. -/
theorem overlayOf_attrSets : (overlayOf generated curated).attrSets.items.map (·.row) =
    (generated.sets ++ curated.sets).map setRow := by
  apply (loadOneFile_attrSets _ curated).trans
  rw [loadOneFile_attrSets, List.map_append]
  rfl

end Overlay

/-- A file is not there exactly when loading it says so. -/
theorem loadOneFile_absent_iff (out : FamilyOverlay) (file : OverlayFile) :
    (loadOneFile out file).loadedAny = .ok false ↔ file = .absent := by
  cases file with
  | absent => simp [loadOneFile]
  | unreadable => simp [loadOneFile]
  | events evs =>
      simp only [loadOneFile]
      split
      · simp
      · simp

/-- A file that does not fail to load. -/
def OverlayFile.Loads (file : OverlayFile) : Prop := file = .absent ∨ file.Complete

instance (file : OverlayFile) : Decidable file.Loads := inferInstanceAs (Decidable (_ ∨ _))

theorem loadOneFile_loads_iff (out : FamilyOverlay) (file : OverlayFile) :
    (∃ any, (loadOneFile out file).loadedAny = .ok any) ↔ file.Loads := by
  rw [Bool.exists_bool, loadOneFile_absent_iff, loadOneFile_loadedAny]
  rfl

section Load

variable {base : CStr} {files : CStr → OverlayFile} {familyName : CStr}

/-- **A family has the overlay of its two files** when both load and one is there. -/
theorem overlayLoad_eq_some_iff {o : FamilyOverlay} :
    overlayLoad base files familyName = .ok (some o) ↔
      ((generatedPath base familyName).length < 4096 ∧
        (curatedPath base familyName).length < 4096 ∧
        (files (generatedPath base familyName)).Loads ∧
        (files (curatedPath base familyName)).Loads ∧
        ((files (generatedPath base familyName)).Complete ∨
          (files (curatedPath base familyName)).Complete)) ∧
      overlayOf (files (generatedPath base familyName))
        (files (curatedPath base familyName)) = o := by
  unfold overlayLoad overlayOf
  generalize files (generatedPath base familyName) = generated
  generalize files (curatedPath base familyName) = curated
  rw [← loadOneFile_loads_iff .zero generated, ← loadOneFile_loadedAny .zero generated,
    ← loadOneFile_loads_iff (loadOneFile .zero generated).out curated,
    ← loadOneFile_loadedAny (loadOneFile .zero generated).out curated]
  by_cases generatedLong : 4096 ≤ (generatedPath base familyName).length
  · simp [generatedLong]
  by_cases curatedLong : 4096 ≤ (curatedPath base familyName).length
  · rw [if_neg generatedLong, if_pos curatedLong]
    simp [curatedLong]
  rw [if_neg generatedLong, if_neg curatedLong]
  rw [not_le] at generatedLong curatedLong
  cases any : (loadOneFile .zero generated).loadedAny with
  | error e => simp [any]
  | ok loadedGenerated =>
      cases any' : (loadOneFile (loadOneFile .zero generated).out curated).loadedAny with
      | error e => simp [any, any']
      | ok loadedCurated =>
          cases loadedGenerated <;> cases loadedCurated <;>
            simp [any, any', generatedLong, curatedLong]

/-- A family without an overlay has neither file. -/
theorem overlayLoad_eq_none (none : overlayLoad base files familyName = .ok none) :
    files (generatedPath base familyName) = .absent ∧
      files (curatedPath base familyName) = .absent := by
  unfold overlayLoad at none
  split at none
  · cases none
  split at none
  · cases none
  dsimp only at none
  split at none
  · cases none
  · next loadedGenerated generated =>
      split at none
      · cases none
      · next loadedCurated curated =>
          split at none
          · next neither =>
              rw [neither.1, loadOneFile_absent_iff] at generated
              rw [neither.2, loadOneFile_absent_iff] at curated
              exact ⟨generated, curated⟩
          · cases none

/-- The files that loading the overlay of a family comes to read: the curated one when the
generated one does not fail. -/
def readFiles (base : CStr) (files : CStr → OverlayFile) (familyName : CStr) : List OverlayFile :=
  if 4096 ≤ (generatedPath base familyName).length then []
  else if 4096 ≤ (curatedPath base familyName).length then []
  else if (files (generatedPath base familyName)).Loads then
    [files (generatedPath base familyName), files (curatedPath base familyName)]
  else [files (generatedPath base familyName)]

theorem overlayLoadLog_eq (base : CStr) (files : CStr → OverlayFile) (familyName : CStr) :
    overlayLoadLog base files familyName =
      (loadFiles .zero (readFiles base files familyName)).2 := by
  have loads := loadOneFile_loads_iff .zero (files (generatedPath base familyName))
  unfold overlayLoadLog readFiles
  split
  · rfl
  split
  · rfl
  cases any : (loadOneFile .zero (files (generatedPath base familyName))).loadedAny with
  | error e =>
      rw [any] at loads
      rw [if_neg fun complete => nomatch (loads.mpr complete).choose_spec]
      simp only [any, loadFiles, List.append_nil]
  | ok loadedGenerated =>
      rw [any] at loads
      rw [if_pos (loads.mp ⟨loadedGenerated, rfl⟩)]
      simp only [any, loadFiles, List.append_nil]

/-- **What comes of a load is defined exactly when the attribute sets it reads fit.** -/
theorem definedLoad_eq_some_iff {r : Except Error (Option FamilyOverlay)} :
    definedLoad base files familyName = some r ↔
      SetsFit (readFiles base files familyName) ∧ overlayLoad base files familyName = r := by
  rw [definedLoad, overlayLoadLog_eq, ← loadFiles_log_inBounds_iff]
  split
  · next bounds => rw [Option.some.injEq, and_iff_right bounds]
  · next bounds => exact iff_of_false (fun impossible => nomatch impossible) fun both => bounds both.1

/-- The operation entries of both files of a family. -/
def familyEntries (base : CStr) (files : CStr → OverlayFile) (familyName : CStr) : List Entry :=
  (files (generatedPath base familyName)).opEntries ++
    (files (curatedPath base familyName)).opEntries

/-- **An operation is looked up in the merged rows of the entries of both files.** -/
theorem findOp_overlayLoad {overlay : Option FamilyOverlay}
    (loaded : overlayLoad base files familyName = .ok overlay) (k : UInt32) :
    findOp overlay k = (merged id ((familyEntries base files familyName).map opRow)).find?
      fun row => row.cmdId == k := by
  cases overlay with
  | none =>
      obtain ⟨generated, curated⟩ := overlayLoad_eq_none loaded
      rw [familyEntries, generated, curated]
      rfl
  | some o =>
      obtain ⟨-, rfl⟩ := overlayLoad_eq_some_iff.mp loaded
      exact congrArg (List.find? _) (overlayOf_ops _ _)

end Load

/-! ## The keys of the rows -/

/-- Only the key of an entry determines the id of its row. -/
theorem opRow_cmdId (e : Entry) : (opRow e).cmdId = (opKey e.key).1 := by
  refine proj_foldl_kept OpOverlay.cmdId ?_ _ e.fields
  intro row f
  rw [assignOp]
  split
  · rfl
  split
  · rfl
  split <;> rfl

theorem opRow_cmdId_of_number {e : Entry} {k : UInt32} (number : parseUint32 e.key = some k) :
    (opRow e).cmdId = k := by
  rw [opRow_cmdId, opKey, number]

theorem opRow_cmdId_of_name {e : Entry} (name : parseUint32 e.key = none) :
    (opRow e).cmdId = 0 := by
  rw [opRow_cmdId, opKey, name]

/-- An entry keyed by a name, and with no field for it, has its key as its name. -/
theorem opRow_name_of_key {e : Entry} (name : parseUint32 e.key = none)
    (unnamed : ∀ f ∈ e.fields, f.1 ≠ lit "name") : (opRow e).name = some e.key := by
  suffices kept : ∀ (row : OpOverlay CStr) (fields : List (CStr × CStr)),
      (∀ f ∈ fields, f.1 ≠ lit "name") →
        (fields.foldl (fun row f => assignOp row f.1 f.2) row).name = row.name by
    rw [opRow, kept _ _ unnamed, opKey, name]
  intro row fields unnamed
  induction fields generalizing row with
  | nil => rfl
  | cons f fields ih =>
      rw [List.foldl_cons, ih _ fun f member => unnamed f (by simp [member]), assignOp,
        if_neg (unnamed f (by simp))]
      split
      · rfl
      split <;> rfl

end Ykern.Overlay
