import Ykern.Overlay.LoaderRefinement

/-!
# Array bounds over a sequence of files

Files are loaded one after the other into the same overlay, and each load starts
from the capacities that `OverlayLoader.resume` sets up. For the operations and
the multicast groups these are the counts the previous file left, so the writes
to these arrays stay in bounds for every sequence of files; so do the writes to
the attributes of a set, whose array is filled in one go (`loadFiles_others`).

The capacity of the array of the attribute sets starts from 0 for every file. Its
names are therefore written in rounds (`loadFiles_names`): once a file has given
it a set, later files write into the slots that are there. All accesses are in
bounds exactly when the sets of all files fit the slots that the first file with
a set asked for (`loadFiles_inBounds_iff`).
-/

set_option autoImplicit false

namespace Ykern.Overlay

open GrowArray

/-- The accesses to the array of the attribute sets. -/
def setSteps (log : ArrayLog) : List ArrayStep :=
  log.filterMap fun access => if access.1 = .attrSets then some access.2 else none

/-- The accesses to all other arrays are in bounds. -/
def OthersInBounds (log : ArrayLog) : Prop :=
  ∀ access ∈ log, access.1 ≠ .attrSets → access.2.InBounds

@[simp] theorem setSteps_nil : setSteps [] = [] := rfl

@[simp] theorem setSteps_append (log log' : ArrayLog) :
    setSteps (log ++ log') = setSteps log ++ setSteps log' :=
  List.filterMap_append

@[simp] theorem setSteps_attrSets (steps : List ArrayStep) :
    setSteps (steps.map fun step => (.attrSets, step)) = steps := by
  simp [setSteps, List.filterMap_map]

theorem setSteps_other {array : ArrayName} (other : array ≠ .attrSets) (steps : List ArrayStep) :
    setSteps (steps.map fun step => (array, step)) = [] := by
  simp [setSteps, List.filterMap_map, other]

theorem OthersInBounds.append {log log' : ArrayLog} (first : OthersInBounds log)
    (second : OthersInBounds log') : OthersInBounds (log ++ log') := by
  intro access member other
  rcases List.mem_append.mp member with member | member
  · exact first access member other
  · exact second access member other

theorem othersInBounds_steps {array : ArrayName} {steps : List ArrayStep}
    (bounds : ∀ step ∈ steps, step.InBounds) :
    OthersInBounds (steps.map fun step => (array, step)) := by
  intro access member _
  obtain ⟨step, member', rfl⟩ := List.mem_map.mp member
  exact bounds step member'

theorem othersInBounds_sets (steps : List ArrayStep) :
    OthersInBounds (steps.map fun step => (.attrSets, step)) := by
  intro access member other
  obtain ⟨step, _, rfl⟩ := List.mem_map.mp member
  exact absurd rfl other

/-- All accesses are in bounds when those to the sets and the others are. -/
theorem inBounds_iff (log : ArrayLog) :
    (∀ access ∈ log, access.2.InBounds) ↔
      OthersInBounds log ∧ ∀ step ∈ setSteps log, step.InBounds := by
  constructor
  · intro all
    refine ⟨fun access member _ => all access member, ?_⟩
    intro step member
    obtain ⟨access, member', found⟩ := List.mem_filterMap.mp member
    split at found
    · obtain rfl := Option.some.inj found
      exact all access member'
    · cases found
  · rintro ⟨others, sets⟩ access member
    by_cases isSet : access.1 = .attrSets
    · exact sets access.2 (List.mem_filterMap.mpr ⟨access, member, by rw [if_pos isSet]⟩)
    · exact others access member isSet

/-! ## The arrays that are resumed -/

/-- The items of the arrays other than that of the attribute sets fit their slots. -/
structure FamilyOverlay.OthersWithinSlots (o : FamilyOverlay) : Prop where
  ops : o.ops.count ≤ o.ops.slots
  mcast : o.mcast.count ≤ o.mcast.slots
  attrs : ∀ set ∈ o.attrSets.items, set.attrs.count ≤ set.attrs.slots

/-- The items of every array fit its slots. -/
def FamilyOverlay.WithinSlots (o : FamilyOverlay) : Prop :=
  o.OthersWithinSlots ∧ o.attrSets.count ≤ o.attrSets.slots

/-- The invariant of a loader: the capacities it keeps are right, but for that of
the attribute sets, and so were its accesses. -/
structure OverlayLoader.InStep (l : OverlayLoader) : Prop where
  ops : l.out.ops.InStep l.opCapacity
  mcast : l.out.mcast.InStep l.mcastCapacity
  attrs : ∀ set ∈ l.out.attrSets.items, set.attrs.count ≤ set.attrs.slots
  log : OthersInBounds l.log

/-- The invariant of a set that is read. -/
structure OpenSet.Valid (s : OpenSet) : Prop where
  attrs : s.slot.attrs.InStep s.cap
  log : OthersInBounds s.log

theorem resume_inStep {o : FamilyOverlay} (within : o.OthersWithinSlots) :
    (OverlayLoader.resume o).InStep :=
  ⟨inStep_count within.ops, inStep_count within.mcast, within.attrs, by
    intro access member
    cases member⟩

theorem OverlayLoader.InStep.withinSlots {l : OverlayLoader} (inStep : l.InStep) :
    l.out.OthersWithinSlots :=
  ⟨inStep.ops.count_le_slots, inStep.mcast.count_le_slots, inStep.attrs⟩

theorem addAttr_valid (set : Nat) {s : OpenSet} (valid : s.Valid) (e : Entry) :
    (s.addAttr set e).Valid := by
  obtain ⟨bounds, next⟩ := push_inStep (Nat.succ_pos _) valid.attrs (attrRow e)
  exact ⟨next, valid.log.append (othersInBounds_steps bounds)⟩

theorem addAttrs_valid (set : Nat) {s : OpenSet} (valid : s.Valid) (entries : List Entry) :
    (entries.foldl (OpenSet.addAttr set) s).Valid := by
  induction entries generalizing s with
  | nil => exact valid
  | cons e entries ih => exact ih (addAttr_valid set valid e)

theorem new_valid (name : CStr) : (OpenSet.new name).Valid :=
  ⟨inStep_empty, by intro access member; cases member⟩

namespace OverlayLoader.InStep

variable {l : OverlayLoader}

theorem addOp (inStep : l.InStep) (e : Entry) : (l.addOp e).InStep := by
  obtain ⟨bounds, next⟩ := push_inStep (Nat.succ_pos _) inStep.ops (opRow e)
  exact ⟨next, inStep.mcast, inStep.attrs, inStep.log.append (othersInBounds_steps bounds)⟩

theorem addMcast (inStep : l.InStep) (e : Entry) : (l.addMcast e).InStep := by
  obtain ⟨bounds, next⟩ := push_inStep (Nat.succ_pos _) inStep.mcast (mcastRow e)
  exact ⟨inStep.ops, next, inStep.attrs, inStep.log.append (othersInBounds_steps bounds)⟩

theorem addSet (inStep : l.InStep) (set : CStr × List Entry) : (l.addSet set).InStep := by
  have valid := addAttrs_valid l.out.attrSets.count (new_valid set.1) set.2
  refine ⟨inStep.ops, inStep.mcast, ?_, ?_⟩
  · intro stored member
    simp only [OverlayLoader.addSet, storeSet, openSet, push_items] at member
    rcases List.mem_or_eq_of_mem_set member with member | rfl
    · rcases List.mem_append.mp member with old | new
      · exact inStep.attrs stored old
      · obtain rfl := List.mem_singleton.mp new
        exact le_refl _
    · exact valid.attrs.count_le_slots
  · exact (inStep.log.append (othersInBounds_sets _)).append valid.log

theorem assignTop (inStep : l.InStep) (key val : CStr) : (l.assignTop key val).InStep := by
  obtain ⟨ops, mcast, attrs, log⟩ := inStep
  unfold OverlayLoader.assignTop
  split
  · exact ⟨ops, mcast, attrs, log⟩
  split
  · exact ⟨ops, mcast, attrs, log⟩
  split
  · exact ⟨ops, mcast, attrs, log⟩
  · exact ⟨ops, mcast, attrs, log⟩

theorem foldl {α : Type} {f : OverlayLoader → α → OverlayLoader}
    (step : ∀ {l : OverlayLoader}, l.InStep → ∀ x, (f l x).InStep) (inStep : l.InStep)
    (xs : List α) : (xs.foldl f l).InStep := by
  induction xs generalizing l with
  | nil => exact inStep
  | cons x xs ih => exact ih (step inStep x)

/-- Every section keeps the invariant. -/
theorem addSection (inStep : l.InStep) (s : Section) : (l.addSection s).InStep := by
  cases s with
  | operations entries => exact inStep.foldl addOp entries
  | mcastGroups entries => exact inStep.foldl addMcast entries
  | attributeSets sets => exact inStep.foldl addSet sets
  | scalar key value => exact inStep.assignTop key value

end OverlayLoader.InStep

/-- One file keeps the arrays other than that of the sets in bounds. -/
theorem loadOneFile_others {out : FamilyOverlay} (within : out.OthersWithinSlots)
    (file : OverlayFile) :
    (loadOneFile out file).out.OthersWithinSlots ∧ OthersInBounds (loadOneFile out file).log := by
  obtain ⟨out_eq, log_eq⟩ := loadOneFile_state out file
  have inStep := (resume_inStep within).foldl (fun h => h.addSection) file.sections
  rw [out_eq, log_eq]
  exact ⟨inStep.withinSlots, inStep.log⟩

/-- **The arrays other than that of the attribute sets stay in bounds**, for every
sequence of files. -/
theorem loadFiles_others {out : FamilyOverlay} (within : out.OthersWithinSlots)
    (files : List OverlayFile) :
    (loadFiles out files).1.OthersWithinSlots ∧ OthersInBounds (loadFiles out files).2 := by
  induction files generalizing out with
  | nil => exact ⟨within, by intro access member; cases member⟩
  | cons file files ih =>
      obtain ⟨next, bounds⟩ := loadOneFile_others within file
      obtain ⟨last, later⟩ := ih next
      exact ⟨last, bounds.append later⟩

/-! ## What a loader has accessed -/

/-- The accesses of a loader so far are in bounds. -/
def OverlayLoader.InBounds (l : OverlayLoader) : Prop := ∀ access ∈ l.log, access.2.InBounds

namespace OverlayLoader.InBounds

variable {l l' : OverlayLoader}

/-- They are when those of a later state are. -/
theorem of_append {log : ArrayLog} (bounds : l'.InBounds) (later : l'.log = l.log ++ log) :
    l.InBounds :=
  fun access member => bounds access (later ▸ List.mem_append_left log member)

theorem of_foldl {α : Type} {f : OverlayLoader → α → OverlayLoader}
    (step : ∀ l x, (f l x).InBounds → l.InBounds) {xs : List α}
    (bounds : (xs.foldl f l).InBounds) : l.InBounds := by
  induction xs generalizing l with
  | nil => exact bounds
  | cons x xs ih => exact step l x (ih bounds)

theorem of_addOp (l : OverlayLoader) (e : Entry) (bounds : (l.addOp e).InBounds) : l.InBounds :=
  bounds.of_append rfl

theorem of_addMcast (l : OverlayLoader) (e : Entry) (bounds : (l.addMcast e).InBounds) :
    l.InBounds :=
  bounds.of_append rfl

/-- Nor does taking the slot of a set write behind the array of the sets then. -/
theorem of_storeSet (l : OverlayLoader) (setName : CStr) (set : Nat) (s : OpenSet)
    (bounds : ((l.openSet setName).storeSet set s).InBounds) : l.InBounds ∧
      ∀ step ∈ (l.out.attrSets.push 16 l.attrSetCapacity ⟨setName, .empty⟩).steps,
        step.InBounds := by
  have opened : (l.openSet setName).InBounds := bounds.of_append rfl
  refine ⟨opened.of_append rfl, ?_⟩
  intro step member
  exact opened (.attrSets, step) (List.mem_append_right _ (List.mem_map_of_mem member))

theorem of_addSet (l : OverlayLoader) (set : CStr × List Entry) (bounds : (l.addSet set).InBounds) :
    l.InBounds :=
  (of_storeSet _ _ _ _ bounds).1

theorem of_addSection (l : OverlayLoader) (s : Section) (bounds : (l.addSection s).InBounds) :
    l.InBounds := by
  cases s with
  | operations entries => exact of_foldl of_addOp bounds
  | mcastGroups entries => exact of_foldl of_addMcast bounds
  | attributeSets sets => exact of_foldl of_addSet bounds
  | scalar key value =>
      have same : (l.assignTop key value).log = l.log := by
        unfold OverlayLoader.assignTop
        split_ifs <;> rfl
      exact fun access member => bounds access (same.symm ▸ member)

/-- A loop of the loader that ends with accesses in bounds started with such. -/
theorem of_readLoop {α : Type} {key : KeyReader OverlayLoader} {value : ValueReader α}
    {apply : OverlayLoader → α → OverlayLoader} (follows : key.Follows value apply)
    (step : ∀ l x, (apply l x).InBounds → l.InBounds) (next : Option String) (badKey : String)
    (l : OverlayLoader) (evs : List YamlEvent)
    (bounds : (readLoop next badKey key l evs).state.InBounds) : l.InBounds := by
  rw [(readLoop_follows follows next badKey l evs).state_eq] at bounds
  exact of_foldl step bounds

end OverlayLoader.InBounds

/-! ## The array of the attribute sets -/

/-- The names of the attribute sets, in their array. -/
def FamilyOverlay.setNames (o : FamilyOverlay) : GrowArray CStr := o.attrSets.map (·.setName)

/-- The names of the attribute sets of a file. -/
def OverlayFile.setNames (file : OverlayFile) : List CStr :=
  file.sections.flatMap fun s => s.sets.map (·.1)

/-- From one loader to another, these names were written to the array of the sets. -/
def NamesPushed (l l' : OverlayLoader) (names : List CStr) : Prop :=
  let pushed := pushAll 16 l.out.setNames l.attrSetCapacity names
  l'.out.setNames = pushed.array ∧ l'.attrSetCapacity = pushed.capacity ∧
    setSteps l'.log = setSteps l.log ++ pushed.steps

namespace NamesPushed

variable {l l' l'' : OverlayLoader}

theorem nothing (names : l'.out.setNames = l.out.setNames)
    (capacity : l'.attrSetCapacity = l.attrSetCapacity)
    (steps : setSteps l'.log = setSteps l.log) : NamesPushed l l' [] :=
  ⟨names, capacity, by simpa [pushAll] using steps⟩

theorem trans {xs ys : List CStr} (first : NamesPushed l l' xs) (second : NamesPushed l' l'' ys) :
    NamesPushed l l'' (xs ++ ys) := by
  obtain ⟨names, capacity, steps⟩ := first
  obtain ⟨names', capacity', steps'⟩ := second
  unfold NamesPushed
  rw [pushAll_append]
  simp only [← names, ← capacity]
  exact ⟨names', capacity', by rw [steps', steps, List.append_assoc]⟩

theorem foldl {α : Type} {f : OverlayLoader → α → OverlayLoader} {names : α → List CStr}
    (step : ∀ l x, NamesPushed l (f l x) (names x)) (l : OverlayLoader) (xs : List α) :
    NamesPushed l (xs.foldl f l) (xs.flatMap names) := by
  induction xs generalizing l with
  | nil => exact nothing rfl rfl rfl
  | cons x xs ih => exact (step l x).trans (ih (f l x))

end NamesPushed

/-- Reading the attributes of a set keeps its name and only writes to them. -/
theorem addAttrs_frame (set : Nat) (s : OpenSet) (entries : List Entry) :
    (entries.foldl (OpenSet.addAttr set) s).slot.setName = s.slot.setName ∧
      setSteps (entries.foldl (OpenSet.addAttr set) s).log = setSteps s.log := by
  induction entries generalizing s with
  | nil => exact ⟨rfl, rfl⟩
  | cons e entries ih =>
      obtain ⟨name, steps⟩ := ih (s.addAttr set e)
      refine ⟨name, steps.trans ?_⟩
      simp [OpenSet.addAttr, OpenSet.appendAttr, setSteps_other]

theorem addSet_names (l : OverlayLoader) (set : CStr × List Entry) :
    NamesPushed l (l.addSet set) [set.1] := by
  obtain ⟨name, steps⟩ := addAttrs_frame l.out.attrSets.count (.new set.1) set.2
  have written := push_map (·.setName) 16 l.out.attrSets l.attrSetCapacity ⟨set.1, .empty⟩
  simp only [NamesPushed, pushAll, FamilyOverlay.setNames, written, List.append_nil]
  refine ⟨?_, rfl, ?_⟩
  · have stored : (l.addSet set).out.attrSets.items =
        l.out.attrSets.items ++
          [(set.2.foldl (OpenSet.addAttr l.out.attrSets.count) (.new set.1)).slot] := by
      simp only [OverlayLoader.addSet, OverlayLoader.storeSet, OverlayLoader.openSet, push_items,
        count]
      rw [List.set_append_right _ _ (le_refl _)]
      simp
    simp only [GrowArray.map, stored, push_items, List.map_append, List.map_cons, List.map_nil, name]
    rfl
  · simp only [OverlayLoader.addSet, OverlayLoader.storeSet, OverlayLoader.openSet,
      setSteps_append, setSteps_attrSets, steps]
    simp [OpenSet.new]

theorem addSection_names (l : OverlayLoader) (s : Section) :
    NamesPushed l (l.addSection s) (s.sets.map (·.1)) := by
  cases s with
  | operations entries =>
      have step : ∀ l e, NamesPushed l (OverlayLoader.addOp l e) [] := fun l e =>
        .nothing rfl rfl (by simp [OverlayLoader.addOp, OverlayLoader.appendOp, setSteps_other])
      have pushed := NamesPushed.foldl step l entries
      rwa [List.flatMap_eq_nil_iff.mpr fun _ _ => rfl] at pushed
  | mcastGroups entries =>
      have step : ∀ l e, NamesPushed l (OverlayLoader.addMcast l e) [] := fun l e =>
        .nothing rfl rfl (by
          simp [OverlayLoader.addMcast, OverlayLoader.appendMcast, setSteps_other])
      have pushed := NamesPushed.foldl step l entries
      rwa [List.flatMap_eq_nil_iff.mpr fun _ _ => rfl] at pushed
  | attributeSets sets =>
      have pushed := NamesPushed.foldl addSet_names l sets
      rwa [← List.map_eq_flatMap] at pushed
  | scalar key value =>
      simp only [OverlayLoader.addSection, OverlayLoader.assignTop, Section.sets, List.map_nil]
      split
      · exact .nothing rfl rfl rfl
      split
      · exact .nothing rfl rfl rfl
      split
      · exact .nothing rfl rfl rfl
      · exact .nothing rfl rfl rfl

/-- **The names of the sets are written in rounds**, one for each file. -/
theorem loadFiles_names (out : FamilyOverlay) (files : List OverlayFile) :
    (loadFiles out files).1.setNames =
        (pushRounds 16 out.setNames (files.map OverlayFile.setNames)).1 ∧
      setSteps (loadFiles out files).2 =
        (pushRounds 16 out.setNames (files.map OverlayFile.setNames)).2 := by
  induction files generalizing out with
  | nil => exact ⟨rfl, rfl⟩
  | cons file files ih =>
      obtain ⟨out_eq, log_eq⟩ := loadOneFile_state out file
      obtain ⟨names, _, steps⟩ := NamesPushed.foldl addSection_names (.resume out) file.sections
      rw [← out_eq] at names
      rw [← log_eq] at steps
      obtain ⟨first, second⟩ := ih (loadOneFile out file).out
      simp only [loadFiles, List.map_cons, pushRounds, setSteps_append, first, second, names, steps]
      exact ⟨rfl, rfl⟩

/-! ## When all accesses are in bounds -/

/-- The number of attribute sets in a sequence of files. -/
def setTotal (files : List OverlayFile) : Nat := (files.map fun file => file.setNames.length).sum

/-- The number of attribute sets in the first file that has any. -/
def firstSetCount (files : List OverlayFile) : Nat := firstRound (files.map OverlayFile.setNames)

/-- The attribute sets of all files fit the slots asked for by the first file that has any. -/
def SetsFit (files : List OverlayFile) : Prop :=
  setTotal files ≤ grownSlots 16 (firstSetCount files)

instance (files : List OverlayFile) : Decidable (SetsFit files) := inferInstanceAs (Decidable (_ ≤ _))

/-- Only the numbers of attribute sets in the files matter to that. -/
theorem SetsFit.congr {files files' : List OverlayFile}
    (same : files.map (fun file => file.setNames.length) =
      files'.map fun file => file.setNames.length) : SetsFit files ↔ SetsFit files' := by
  have lengths (files : List OverlayFile) :
      (files.map OverlayFile.setNames).map List.length = files.map fun file => file.setNames.length :=
    List.map_map
  have first : firstSetCount files = firstSetCount files' :=
    firstRound_congr (by rw [lengths, lengths, same])
  rw [SetsFit, SetsFit, setTotal, setTotal, same, first]

/-- The attribute sets of one file fit. -/
theorem SetsFit.single (file : OverlayFile) : SetsFit [file] := by
  have held := le_grownSlots (by decide : 0 < 16) file.setNames.length
  rw [SetsFit, setTotal, firstSetCount, List.map_singleton, List.map_singleton, List.sum_singleton,
    firstRound]
  split
  · next none => simp [none]
  · exact held

/-- The accesses to the attribute sets are in bounds exactly when the sets fit. -/
theorem loadFiles_log_inBounds_iff (files : List OverlayFile) :
    (∀ access ∈ (loadFiles .zero files).2, access.2.InBounds) ↔ SetsFit files := by
  have zero : FamilyOverlay.zero.OthersWithinSlots :=
    ⟨le_refl _, le_refl _, by intro set member; cases member⟩
  obtain ⟨_, others⟩ := loadFiles_others zero files
  obtain ⟨_, steps⟩ := loadFiles_names .zero files
  have rounds := pushRounds_inBounds_iff (by decide : 0 < 16) (files.map OverlayFile.setNames)
  have total : (files.map OverlayFile.setNames).flatten.length = setTotal files := by
    simp [setTotal, List.length_flatten, List.map_map, Function.comp_def]
  rw [inBounds_iff, steps, SetsFit, firstSetCount, ← total, ← rounds]
  exact ⟨And.right, fun sets => ⟨others, sets⟩⟩

/-- When the sets fit, every array has slots for its items. -/
theorem loadFiles_withinSlots {files : List OverlayFile} (fit : SetsFit files) :
    (loadFiles .zero files).1.WithinSlots := by
  have zero : FamilyOverlay.zero.OthersWithinSlots :=
    ⟨le_refl _, le_refl _, by intro set member; cases member⟩
  obtain ⟨array, _⟩ := loadFiles_names .zero files
  have total : (files.map OverlayFile.setNames).flatten.length = setTotal files := by
    simp [setTotal, List.length_flatten, List.map_map, Function.comp_def]
  have counted : (loadFiles .zero files).1.attrSets.count = setTotal files := by
    have items := congrArg (·.items.length) array
    simp only [pushRounds_items, List.length_append, total] at items
    simpa [FamilyOverlay.setNames, GrowArray.map, FamilyOverlay.zero, empty, count] using items
  have slots : (loadFiles .zero files).1.attrSets.slots = grownSlots 16 (firstSetCount files) :=
    (congrArg GrowArray.slots array).trans (pushRounds_slots 16 _)
  refine ⟨(loadFiles_others zero files).1, ?_⟩
  rw [counted, slots]
  exact fit

/-- **The accesses are in bounds exactly when the attribute sets of all files fit
the slots asked for by the first file that has any.** -/
theorem loadFiles_inBounds_iff (files : List OverlayFile) :
    ((∀ access ∈ (loadFiles .zero files).2, access.2.InBounds) ∧
        (loadFiles .zero files).1.WithinSlots) ↔
      setTotal files ≤ grownSlots 16 (firstSetCount files) := by
  constructor
  · rintro ⟨log, _⟩
    exact (loadFiles_log_inBounds_iff files).mp log
  · intro fit
    exact ⟨(loadFiles_log_inBounds_iff files).mpr fit, loadFiles_withinSlots fit⟩

/-- A file with so many attribute sets, each without attributes. -/
def fileWithSets (n : Nat) : OverlayFile :=
  .events ([.streamStart, .documentStart, .mappingStart, .scalar (lit "attribute_sets"),
      .mappingStart] ++
    (List.range n).flatMap (fun i => [.scalar (lit "set" ++ decimal i), .mappingStart, .mappingEnd]) ++
    [.mappingEnd, .mappingEnd, .documentEnd, .streamEnd])

/-- A second file with one set, after a first with 16, writes past the array. -/
theorem second_file_writes_past_sets :
    ¬ ∀ files : List OverlayFile, (∀ access ∈ (loadFiles .zero files).2, access.2.InBounds) ∧
      (loadFiles .zero files).1.WithinSlots := by
  intro always
  exact absurd (always [fileWithSets 16, fileWithSets 1]).1 (by decide +kernel)

end Ykern.Overlay
