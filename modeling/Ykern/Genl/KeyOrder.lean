import Ykern.Genl.FamilyMessage
import Ykern.Overlay.KeyOrder

/-!
# The overlay of a family and the order of the keys

A family has the overlay of its two files when both load and one is there. Writing the
mappings of the files in another order changes neither, and no lookup, while loading them
is defined: the loader must not write behind its arrays, so the attribute sets of both
files must fit (`familyOverlay_reordered`). For files that load the order has no part in
that either.
-/

set_option autoImplicit false

namespace Ykern.Genl

open Overlay

/-! ## The overlay of a family -/

section Family

variable {base : CStr} {files files' : CStr → OverlayFile} {name : CStr}

/-- The overlay of a family is the one of its two files, when there is one. -/
theorem familyOverlay_eq_some_iff {o : FamilyOverlay} :
    familyOverlay base files name = some o ↔ overlayLoad base files name = .ok (some o) := by
  unfold familyOverlay
  split
  · next overlay loaded => rw [loaded, Except.ok.injEq]
  · next e failed => simp [failed]

/-- When files load wherever others do, there is an overlay wherever the others give one. -/
theorem familyOverlay_some {o : FamilyOverlay} (found : familyOverlay base files name = some o)
    (generated : (files (generatedPath base name)).Loads →
      (files' (generatedPath base name)).Loads)
    (curated : (files (curatedPath base name)).Loads → (files' (curatedPath base name)).Loads)
    (complete : (files (generatedPath base name)).Complete →
      (files' (generatedPath base name)).Complete)
    (complete' : (files (curatedPath base name)).Complete →
      (files' (curatedPath base name)).Complete) :
    familyOverlay base files' name =
      some (overlayOf (files' (generatedPath base name)) (files' (curatedPath base name))) := by
  obtain ⟨⟨short, short', loads, loads', any⟩, -⟩ :=
    overlayLoad_eq_some_iff.mp (familyOverlay_eq_some_iff.mp found)
  apply familyOverlay_eq_some_iff.mpr
  apply overlayLoad_eq_some_iff.mpr
  exact ⟨⟨short, short', generated loads, curated loads', any.imp complete complete'⟩, rfl⟩

/-- The two files of a family have the entries of their mappings in another order. -/
structure FilesReordered (base name : CStr) (files files' : CStr → OverlayFile) : Prop where
  generated : (files (generatedPath base name)).Reordered (files' (generatedPath base name))
  curated : (files (curatedPath base name)).Reordered (files' (curatedPath base name))

theorem FilesReordered.refl (base name : CStr) (files : CStr → OverlayFile) :
    FilesReordered base name files files := ⟨.same _, .same _⟩

/-- Where keys are distinct, files with the entries of their mappings in another order give a
family an overlay with the same lookups. -/
theorem familyOverlay_sameLookups
    (distinct : KeysDistinct (files (generatedPath base name)) (files (curatedPath base name)))
    (reordered : FilesReordered base name files files') :
    SameLookups (familyOverlay base files name) (familyOverlay base files' name) := by
  obtain ⟨complete, sections⟩ := reordered.generated.complete_sections
  obtain ⟨complete', sections'⟩ := reordered.curated.complete_sections
  have loads : (files (generatedPath base name)).Loads ↔ (files' (generatedPath base name)).Loads :=
    or_congr reordered.generated.absent_iff complete
  have loads' : (files (curatedPath base name)).Loads ↔ (files' (curatedPath base name)).Loads :=
    or_congr reordered.curated.absent_iff complete'
  cases here : familyOverlay base files name with
  | some o =>
      have there := familyOverlay_some here loads.mp loads'.mp complete.mp complete'.mp
      obtain ⟨⟨-, -, load, load', -⟩, rfl⟩ :=
        overlayLoad_eq_some_iff.mp (familyOverlay_eq_some_iff.mp here)
      rw [there]
      exact overlayOf_reordered distinct (sections load) (sections' load')
  | none =>
      cases there : familyOverlay base files' name with
      | some o' =>
          have back := familyOverlay_some there loads.mpr loads'.mpr complete.mpr complete'.mpr
          rw [here] at back
          cases back
      | none => exact ⟨rfl, rfl, fun _ => rfl, fun _ => rfl, fun _ =>
          ⟨rfl, fun _ => rfl, fun _ => rfl, fun _ => rfl⟩⟩

/-! ## Loads that are defined -/

/-- The overlay of a family, if loading it is defined. -/
def definedOverlay (base : CStr) (files : CStr → OverlayFile) (name : CStr) :
    Option (Option FamilyOverlay) :=
  (definedLoad base files name).map fun loaded => loaded.toOption.join

theorem definedOverlay_eq_some_iff {o : Option FamilyOverlay} :
    definedOverlay base files name = some o ↔
      SetsFit (readFiles base files name) ∧ familyOverlay base files name = o := by
  have same : (overlayLoad base files name).toOption.join = familyOverlay base files name := by
    unfold familyOverlay
    cases overlayLoad base files name with
    | ok overlay => rfl
    | error e => rfl
  simp only [definedOverlay, Option.map_eq_some_iff, definedLoad_eq_some_iff, and_assoc,
    exists_and_left, exists_eq_left', same]

/-- A file that loads has as many attribute sets in any order. -/
theorem length_setNames_reordered {file file' : OverlayFile} (reordered : file.Reordered file')
    (loads : file.Loads) : file.setNames.length = file'.setNames.length := by
  have names (file : OverlayFile) : file.setNames = file.sets.map Prod.fst :=
    List.map_flatMap.symm
  rw [names, names, List.length_map, List.length_map]
  exact (sets_reordered (reordered.complete_sections.2 loads)).length_eq

/-- **Whether the sets of files that load fit does not depend on the order of the keys.** -/
theorem setsFit_reordered (reordered : FilesReordered base name files files')
    (loads : (files (generatedPath base name)).Loads → (files (curatedPath base name)).Loads) :
    SetsFit (readFiles base files' name) ↔ SetsFit (readFiles base files name) := by
  have same : (files (generatedPath base name)).Loads ↔ (files' (generatedPath base name)).Loads :=
    or_congr reordered.generated.absent_iff reordered.generated.complete_sections.1
  unfold readFiles
  split
  · exact Iff.rfl
  split
  · exact Iff.rfl
  by_cases complete : (files (generatedPath base name)).Loads
  · rw [if_pos complete, if_pos (same.mp complete)]
    apply SetsFit.congr
    simp only [List.map_cons, List.map_nil, length_setNames_reordered reordered.generated complete,
      length_setNames_reordered reordered.curated (loads complete)]
  · rw [if_neg complete, if_neg (fun complete' => complete (same.mpr complete'))]
    exact iff_of_true (.single _) (.single _)

/-- **The order of the keys does not matter exactly while the attribute sets fit.** Where keys
are distinct, loading the files in every order is defined and gives the same lookups, if and only
if in every order the sets that are read fit the slots that the first file with sets asks for. The
order has no part in that unless only the curated file fails to load. -/
theorem familyOverlay_reordered
    (distinct : KeysDistinct (files (generatedPath base name)) (files (curatedPath base name))) :
    ((∀ files', FilesReordered base name files files' →
        ∃ o o', definedOverlay base files name = some o ∧
          definedOverlay base files' name = some o' ∧ SameLookups o o') ↔
      ∀ files', FilesReordered base name files files' → SetsFit (readFiles base files' name)) ∧
    (((files (generatedPath base name)).Loads → (files (curatedPath base name)).Loads) →
      ∀ files', FilesReordered base name files files' →
        (SetsFit (readFiles base files' name) ↔ SetsFit (readFiles base files name))) := by
  refine ⟨⟨?_, ?_⟩, fun loads files' reordered => setsFit_reordered reordered loads⟩
  · intro same files' reordered
    obtain ⟨_, _, _, defined, _⟩ := same files' reordered
    exact (definedOverlay_eq_some_iff.mp defined).1
  · intro fit files' reordered
    exact ⟨_, _, definedOverlay_eq_some_iff.mpr ⟨fit files (.refl base name files), rfl⟩,
      definedOverlay_eq_some_iff.mpr ⟨fit files' reordered, rfl⟩,
      familyOverlay_sameLookups distinct reordered⟩

end Family

/-! ## Two files written in two ways -/

/-- A mapping of two entries, with the second one first if `swapped`. -/
def twoEntries (swapped : Bool) (key : CStr) (node : YamlNode) (key' : CStr) (other : YamlNode) :
    YamlNode :=
  if swapped then .mapping [(.scalar key', other), (.scalar key, node)]
  else .mapping [(.scalar key, node), (.scalar key', other)]

/-- An entry that has a name. -/
def nameEntry (name : CStr) : YamlNode := .mapping [(.scalar (lit "name"), .scalar name)]

/-- A generated file of the family `handshake`. -/
def handshakeGenerated (swapped : Bool) : YamlNode :=
  twoEntries swapped
    (lit "operations") (twoEntries swapped (lit "1") (nameEntry (lit "READY"))
      (lit "2") (nameEntry (lit "ACCEPT")))
    (lit "attribute_sets") (.mapping [(.scalar (lit "DONE"),
      twoEntries swapped (lit "1") (nameEntry (lit "STATUS"))
        (lit "2") (nameEntry (lit "SOCKFD")))])

/-- A curated file of the family. -/
def handshakeCurated (swapped : Bool) : YamlNode :=
  twoEntries swapped
    (lit "short") (.scalar (lit "TLS handshakes"))
    (lit "operations") (.mapping [(.scalar (lit "ACCEPT"),
      twoEntries swapped (lit "short") (.scalar (lit "Accept"))
        (lit "long") (.scalar (lit "Take it")))])

/-- A file with this document. -/
def documentFile (root : YamlNode) : OverlayFile :=
  .events (.streamStart :: .documentStart :: (root.events ++ [.documentEnd, .streamEnd]))

/-- The files of the family. -/
def handshakeFiles (swapped : Bool) (path : CStr) : OverlayFile :=
  if path = generatedPath [] (lit "handshake") then documentFile (handshakeGenerated swapped)
  else if path = curatedPath [] (lit "handshake") then documentFile (handshakeCurated swapped)
  else .absent

theorem handshake_keysDistinct :
    KeysDistinct (handshakeFiles false (generatedPath [] (lit "handshake")))
      (handshakeFiles false (curatedPath [] (lit "handshake"))) where
  scalars := by decide +kernel
  opFields := by decide +kernel
  mcastFields := by decide +kernel
  attrFields := by decide +kernel
  ids := by decide +kernel
  names := by decide +kernel
  named := by decide +kernel
  groups := by decide +kernel
  sets := by decide +kernel
  attrIds := by decide +kernel
  attrNames := by decide +kernel

theorem nameEntry_reordered (name : CStr) : (nameEntry name).Reordered (nameEntry name) :=
  .single (.scalar name)

theorem handshake_reordered :
    FilesReordered [] (lit "handshake") (handshakeFiles false) (handshakeFiles true) := by
  have generated : (handshakeGenerated false).Reordered (handshakeGenerated true) :=
    .swap (.swap (nameEntry_reordered _) (nameEntry_reordered _))
      (.single (.swap (nameEntry_reordered _) (nameEntry_reordered _)))
  have curated : (handshakeCurated false).Reordered (handshakeCurated true) :=
    .swap (.scalar _) (.single (.swap (.scalar _) (.scalar _)))
  exact ⟨.document generated _ _, .document curated _ _⟩

/-- The files written the other way round describe the operation `ACCEPT` alike. -/
theorem familyOverlay_handshake :
    (∃ o o', definedOverlay [] (handshakeFiles false) (lit "handshake") = some o ∧
        definedOverlay [] (handshakeFiles true) (lit "handshake") = some o' ∧ SameLookups o o') ∧
      (findOp (familyOverlay [] (handshakeFiles true) (lit "handshake")) 2).map (·.shortDesc) =
        some (some (lit "Accept")) := by
  obtain ⟨same, order⟩ := familyOverlay_reordered handshake_keysDistinct
  have fit : SetsFit (readFiles [] (handshakeFiles false) (lit "handshake")) := by decide +kernel
  refine ⟨same.mpr (fun files' reordered => ?_) _ handshake_reordered, by decide +kernel⟩
  exact (order (fun _ => by decide +kernel) files' reordered).mpr fit

/-! ## One attribute set too many -/

/-- A curated file with one attribute set. -/
def oneMoreCurated : YamlNode :=
  .mapping [(.scalar (lit "attribute_sets"), .mapping [(.scalar (lit "more"), .mapping [])])]

/-- A generated file with 16 attribute sets, and a curated one with another. -/
def crowdedFiles (path : CStr) : OverlayFile :=
  if path = generatedPath [] (lit "crowded") then fileWithSets 16
  else if path = curatedPath [] (lit "crowded") then documentFile oneMoreCurated
  else .absent

theorem crowded_keysDistinct :
    KeysDistinct (crowdedFiles (generatedPath [] (lit "crowded")))
      (crowdedFiles (curatedPath [] (lit "crowded"))) where
  scalars := by decide +kernel
  opFields := by decide +kernel
  mcastFields := by decide +kernel
  attrFields := by decide +kernel
  ids := by decide +kernel
  names := by decide +kernel
  named := by decide +kernel
  groups := by decide +kernel
  sets := by decide +kernel
  attrIds := by decide +kernel
  attrNames := by decide +kernel

/-- The set of the curated file is written behind the array of the sets, so nothing is defined of
the overlay, even with the files as they are. -/
theorem crowded_undefined :
    ¬∀ (base name : CStr) (files files' : CStr → OverlayFile),
      KeysDistinct (files (generatedPath base name)) (files (curatedPath base name)) →
        FilesReordered base name files files' → ∃ o o', definedOverlay base files name = some o ∧
          definedOverlay base files' name = some o' ∧ SameLookups o o' := by
  intro always
  obtain ⟨o, _, defined, _⟩ := always [] (lit "crowded") crowdedFiles crowdedFiles
    crowded_keysDistinct (.refl _ _ _)
  have fit := (definedOverlay_eq_some_iff.mp defined).1
  exact absurd fit (by decide +kernel)

end Ykern.Genl
