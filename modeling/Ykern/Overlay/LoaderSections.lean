import Ykern.Overlay.LoaderSteps

/-!
# The sections of an overlay in memory

The rows, sets and overlays in memory, by value, and what each of the routines for the sections
of a document leaves (`LoaderReads`): the loader with the entries of the section in it, as the
routine by value leaves it, with nothing lost but a type hint.

An entry is read by one routine with parameters (`readEntry_reads`), and a section is a loop over
keys (`section_reads`). A set is different: its slot is in the array of the sets while its
attributes are read, so the routine is about the slot, and the loader is put together again
afterwards (`readSet_reads`).
-/

set_option autoImplicit false

namespace Ykern.Overlay.Memory

open Alloc Holder

variable {grants : Nat → Bool} {held more : Multiset Block}

/-! ## What is in memory, by value -/

/-- An operation row by value. -/
def eraseOp (row : OpOverlay Str) : OpOverlay CStr :=
  ⟨row.cmdId, row.name.map (·.chars), row.shortDesc.map (·.chars), row.longDesc.map (·.chars)⟩

/-- A multicast row by value. -/
def McastRow.erase (row : McastRow) : McastOverlay :=
  ⟨row.name.map (·.chars), row.shortDesc.map (·.chars), row.longDesc.map (·.chars)⟩

/-- An attribute row by value. -/
def AttrRow.erase (attr : AttrRow) : AttrOverlay :=
  ⟨attr.attrId, attr.name.map (·.chars), attr.typeHint.map (·.chars)⟩

/-- What is stored of an attribute set, by value. -/
def SetRow.erase (set : SetRow) : CStr × List AttrOverlay :=
  (set.setName.chars, set.attrs.items.map AttrRow.erase)

/-- The overlay in memory is this one by value. -/
structure HeldOverlay.Represents (o : HeldOverlay) (O : FamilyOverlay) : Prop where
  familyName : o.familyName.map (·.chars) = O.familyName
  shortDesc : o.shortDesc.map (·.chars) = O.shortDesc
  longDesc : o.longDesc.map (·.chars) = O.longDesc
  ops : o.ops.items.map eraseOp = O.ops.items
  mcast : o.mcast.items.map McastRow.erase = O.mcast.items
  attrSets : o.attrSets.items.map SetRow.erase = O.attrSets.items.map AttrSetOverlay.row

/-- The loader is this one by value, apart from the accesses that one records. -/
structure Loader.Represents (l : Loader) (L : OverlayLoader) : Prop where
  out : l.out.Represents L.out
  opCapacity : l.opCapacity = L.opCapacity
  mcastCapacity : l.mcastCapacity = L.mcastCapacity
  attrSetCapacity : l.attrSetCapacity = L.attrSetCapacity

/-- The arrays of the loader are ready, and the sets in it have arrays of their own. The numbers of
slots it remembers are right, but for that of the attribute sets, which are as many as those of the
loader by value. -/
structure Loader.Good (l : Loader) (L : OverlayLoader) : Prop where
  ops : Rows.Steady ⟨l.out.ops, l.opCapacity⟩
  mcast : Rows.Steady ⟨l.out.mcast, l.mcastCapacity⟩
  attrSets : Rows.Ready ⟨l.out.attrSets, l.attrSetCapacity⟩
  alike : Rows.Alike ⟨l.out.attrSets, l.attrSetCapacity⟩ L.out.attrSets L.attrSetCapacity
  attrs : ∀ set ∈ l.out.attrSets.items, set.attrs.Placed

theorem blocks_loader (l : Loader) : blocks l = blocks l.out.self + blocks l.out.familyName +
    blocks l.out.shortDesc + blocks l.out.longDesc + blocks l.out.ops + blocks l.out.mcast +
      blocks l.out.attrSets := rfl

theorem keep_keeps {σ : Type} [Holder σ] (s : σ) :
    Does grants (blocks s) (keep s) fun _ held' => held' = blocks s := .pure rfl

/-! ## Fields -/

theorem opFields_mirrors :
    opFields.Mirrors (fun _ => 0) (fun _ _ => True) (fun row row' => eraseOp row = row')
      assignOp := by
  have holds (row : OpOverlay Str) :
      blocks row = blocks row.name + blocks row.shortDesc + blocks row.longDesc := rfl
  refine ⟨fun grants row => Fields.release_frees ?_, ?_, fun _ _ _ _ _ good => good,
    fun _ _ _ _ good => good, ?_, ?_⟩
  · simp only [holds, opFields, blocks_cons, blocks_nil, add_zero, add_assoc]
  · simp only [opFields, List.forall_mem_cons, holds]
    refine ⟨fun k s => by ac_rfl, fun k s => by ac_rfl, fun k s => by ac_rfl, nofun⟩
  · simp only [opFields, List.forall_mem_cons]
    refine ⟨?_, ?_, ?_, nofun⟩
    · rintro row _ val rfl
      rfl
    · rintro row _ val rfl
      rfl
    · rintro row _ val rfl
      rfl
  · intro row key val unknown
    simp only [opFields, List.forall_mem_cons] at unknown
    obtain ⟨notName, notShort, notLong, -⟩ := unknown
    rw [assignOp, if_neg (Ne.symm notName), if_neg (Ne.symm notShort), if_neg (Ne.symm notLong)]

theorem mcastFields_mirrors : mcastFields.Mirrors (fun _ => 0) (fun _ _ => True)
    (fun row row' => row.erase = row') assignMcast := by
  have holds (row : McastRow) :
      blocks row = blocks row.name + blocks row.shortDesc + blocks row.longDesc := rfl
  refine ⟨fun grants row => Fields.release_frees ?_, ?_, fun _ _ _ _ _ good => good,
    fun _ _ _ _ good => good, ?_, ?_⟩
  · simp only [holds, mcastFields, blocks_cons, blocks_nil, add_zero, add_assoc]
  · simp only [mcastFields, List.forall_mem_cons, holds]
    refine ⟨fun k s => by ac_rfl, fun k s => by ac_rfl, nofun⟩
  · simp only [mcastFields, List.forall_mem_cons]
    refine ⟨?_, ?_, nofun⟩
    · rintro row _ val rfl
      rfl
    · rintro row _ val rfl
      rfl
  · intro row key val unknown
    simp only [mcastFields, List.forall_mem_cons] at unknown
    obtain ⟨notShort, notLong, -⟩ := unknown
    rw [assignMcast, if_neg (Ne.symm notShort), if_neg (Ne.symm notLong)]

theorem attrFields_mirrors : attrFields.Mirrors (fun _ => 0) (fun _ _ => True)
    (fun attr attr' => attr.erase = attr') assignAttr := by
  have holds (attr : AttrRow) : blocks attr = blocks attr.name + blocks attr.typeHint := rfl
  refine ⟨fun grants attr => Fields.release_frees ?_, ?_, fun _ _ _ _ _ good => good,
    fun _ _ _ _ good => good, ?_, ?_⟩
  · simp only [holds, attrFields, blocks_cons, blocks_nil, add_zero]
  · simp only [attrFields, List.forall_mem_cons, holds]
    refine ⟨fun k s => by ac_rfl, fun k s => by ac_rfl, nofun⟩
  · simp only [attrFields, List.forall_mem_cons]
    refine ⟨?_, ?_, nofun⟩
    · rintro attr _ val rfl
      rfl
    · rintro attr _ val rfl
      rfl
  · intro attr key val unknown
    simp only [attrFields, List.forall_mem_cons] at unknown
    obtain ⟨notName, notType, -⟩ := unknown
    rw [assignAttr, if_neg (Ne.symm notName), if_neg (Ne.symm notType)]

theorem topFields_mirrors : topFields.Mirrors blocks Loader.Good Loader.Represents
    OverlayLoader.assignTop := by
  refine ⟨fun grants l => .pure rfl, ?_, ?_, ?_, ?_, ?_⟩
  · simp only [topFields, List.forall_mem_cons, blocks_loader]
    refine ⟨fun k s => by ac_rfl, fun k s => by ac_rfl, fun k s => by ac_rfl, nofun⟩
  · simp only [topFields, List.forall_mem_cons]
    refine ⟨?_, ?_, ?_, nofun⟩
    · exact fun l L _ good => ⟨good.ops, good.mcast, good.attrSets, good.alike, good.attrs⟩
    · exact fun l L _ good => ⟨good.ops, good.mcast, good.attrSets, good.alike, good.attrs⟩
    · exact fun l L _ good => ⟨good.ops, good.mcast, good.attrSets, good.alike, good.attrs⟩
  · intro l L key val good
    refine ⟨good.ops, good.mcast, good.attrSets, ?_, good.attrs⟩
    unfold OverlayLoader.assignTop
    split_ifs <;> exact good.alike
  · simp only [topFields, List.forall_mem_cons]
    refine ⟨?_, ?_, ?_, nofun⟩
    · intro l L val same
      rw [OverlayLoader.assignTop, if_pos rfl]
      exact ⟨{ same.out with familyName := rfl }, same.opCapacity, same.mcastCapacity,
        same.attrSetCapacity⟩
    · intro l L val same
      rw [OverlayLoader.assignTop, if_neg (by decide), if_pos rfl]
      exact ⟨{ same.out with shortDesc := rfl }, same.opCapacity, same.mcastCapacity,
        same.attrSetCapacity⟩
    · intro l L val same
      rw [OverlayLoader.assignTop, if_neg (by decide), if_neg (by decide), if_pos rfl]
      exact ⟨{ same.out with longDesc := rfl }, same.opCapacity, same.mcastCapacity,
        same.attrSetCapacity⟩
  · intro L key val unknown
    simp only [topFields, List.forall_mem_cons] at unknown
    obtain ⟨notFamily, notShort, notLong, -⟩ := unknown
    rw [OverlayLoader.assignTop, if_neg (Ne.symm notFamily), if_neg (Ne.symm notShort),
      if_neg (Ne.symm notLong)]

/-! ## Operations and multicast groups -/

/-- What a routine leaves that reads into the loader. -/
abbrev LoaderReads (grants : Nat → Bool) (evs : List YamlEvent)
    (R : Overlay.Reading OverlayLoader) : Reading Loader → Multiset Block → Prop :=
  Reads grants blocks Loader.Good Loader.Represents evs R

section Loader

variable {l : Loader} {L : OverlayLoader} {evs : List YamlEvent} {steps : Nat}

theorem readOpInner_reads (enough : evs.length < steps) (good : l.Good L)
    (same : Refuses grants ∨ l.Represents L) (cmdId : UInt32) (name : Option Str) :
    Does grants (blocks name + blocks l) (readOpInner steps l cmdId name evs)
      (LoaderReads grants evs (Overlay.readOpInner L cmdId (name.map (·.chars)) evs)) := by
  have row : blocks (⟨cmdId, name, none, none⟩ : OpOverlay Str) = blocks name := by
    show blocks name + 0 + 0 = _
    rw [add_zero, add_zero]
  have holds (rows : Rows (OpOverlay Str)) :
      blocks ({ l with out := { l.out with ops := rows.array }, opCapacity := rows.capacity } :
        Loader) = blocks rows + (blocks l.out.self + blocks l.out.familyName +
          blocks l.out.shortDesc + blocks l.out.longDesc + blocks l.out.mcast +
            blocks l.out.attrSets) := by
    rw [blocks_loader, show blocks rows = blocks rows.array from rfl]
    ac_rfl
  have rows : Refuses grants ∨
      Rows.Represents eraseOp ⟨l.out.ops, l.opCapacity⟩ (L.out.ops, L.opCapacity) :=
    same.imp_right fun same => ⟨same.out.ops, same.opCapacity⟩
  rw [← row]
  refine readEntry_reads (by decide) opFields_mirrors (fun row => ?_) enough good.ops rows _ holds
    (fun rows steady => ⟨?_, fun K => ?_⟩) (same.imp_right fun same rows represents => ?_)
    (same.imp_right fun same rows K represents => ?_)
  · exact (opFields_mirrors.releases grants row).mono fun _ _ none => none ▸ Nat.zero_le 1
  · exact ⟨steady, good.mcast, good.attrSets, good.alike, good.attrs⟩
  · exact ⟨steady, good.mcast, good.attrSets, good.alike, good.attrs⟩
  · exact ⟨{ same.out with ops := represents.1 }, represents.2, same.mcastCapacity,
      same.attrSetCapacity⟩
  · exact ⟨{ same.out with ops := represents.1 }, represents.2, same.mcastCapacity,
      same.attrSetCapacity⟩

theorem readMcastEntry_reads (enough : evs.length < steps) (good : l.Good L)
    (same : Refuses grants ∨ l.Represents L) (name : Str) :
    Does grants ({name.block} + blocks l) (readMcastEntry steps l name evs)
      (LoaderReads grants evs (Overlay.readMcastEntry L name.chars evs)) := by
  have row : blocks (⟨some name, none, none⟩ : McastRow) = {name.block} := by
    show blocks (some name) + 0 + 0 = _
    rw [add_zero, add_zero]
    rfl
  have holds (rows : Rows McastRow) :
      blocks ({ l with
        out := { l.out with mcast := rows.array }, mcastCapacity := rows.capacity } : Loader) =
          blocks rows + (blocks l.out.self + blocks l.out.familyName + blocks l.out.shortDesc +
            blocks l.out.longDesc + blocks l.out.ops + blocks l.out.attrSets) := by
    rw [blocks_loader, show blocks rows = blocks rows.array from rfl]
    ac_rfl
  have rows : Refuses grants ∨
      Rows.Represents McastRow.erase ⟨l.out.mcast, l.mcastCapacity⟩ (L.out.mcast, L.mcastCapacity) :=
    same.imp_right fun same => ⟨same.out.mcast, same.mcastCapacity⟩
  rw [← row]
  refine readEntry_reads (by decide) mcastFields_mirrors (fun row => ?_) enough good.mcast rows _
    holds (fun rows steady => ⟨?_, fun K => ?_⟩) (same.imp_right fun same rows represents => ?_)
    (same.imp_right fun same rows K represents => ?_)
  · exact (mcastFields_mirrors.releases grants row).mono fun _ _ none => none ▸ Nat.zero_le 1
  · exact ⟨good.ops, steady, good.attrSets, good.alike, good.attrs⟩
  · exact ⟨good.ops, steady, good.attrSets, good.alike, good.attrs⟩
  · exact ⟨{ same.out with mcast := represents.1 }, same.opCapacity, represents.2,
      same.attrSetCapacity⟩
  · exact ⟨{ same.out with mcast := represents.1 }, same.opCapacity, represents.2,
      same.attrSetCapacity⟩

/-- What is read into the loader, with the error wrapped. -/
theorem wrapped_reads {x : Alloc (Reading Loader)} {R : Overlay.Reading OverlayLoader}
    (reads : Does grants held x (LoaderReads grants evs R)) (msg : String) :
    Does grants held (do
      let r ← x
      wrap msg r) (LoaderReads grants evs (R.wrap msg)) :=
  reads.bind fun _ _ left => wrap_reads left msg

theorem readOp_reads (key : Str) (enough : evs.length < steps) (good : l.Good L)
    (same : Refuses grants ∨ l.Represents L) :
    Does grants ({key.block} + blocks l) (readOp steps key l evs)
      (LoaderReads grants evs (opReader.read key.chars L evs)) := by
  refine Does.touch_then (Multiset.mem_add.mpr (.inl (Multiset.mem_singleton_self _))) ?_
  show Does _ _ _ (LoaderReads grants evs
    (Overlay.expectThen .mappingStart "yaml: op value expected mapping" L evs fun rest =>
      (Overlay.readOpInner L (opKey key.chars).1 (opKey key.chars).2 rest).wrap
        "yaml: read_op_inner failed"))
  rw [opKey]
  cases parsed : parseUint32 key.chars with
  | some cmdId =>
      refine freeStr_then rfl ?_
      rw [← zero_add (blocks l)]
      refine expectThen_reads good same (.pure (zero_add _)) fun rest fewer _ => ?_
      exact wrapped_reads (readOpInner_reads (by omega) good same cmdId none) _
  | none =>
      refine expectThen_reads good same ?_ fun rest fewer _ => ?_
      · refine ((freeStr_frees (some key)).frame (blocks l)).mono ?_
        rintro ⟨⟩ _ ⟨_, rfl, rfl⟩
        exact zero_add _
      · exact wrapped_reads (readOpInner_reads (by omega) good same 0 (some key)) _

/-- A section is a mapping whose keys are read one after another. -/
theorem section_reads {next badKey noKey msg : String}
    {body : Str → Loader → List YamlEvent → Alloc (Reading Loader)} {key : KeyReader OverlayLoader}
    (back : ∀ L evs, (readLoop (some next) badKey key L evs).state.InBounds → L.InBounds)
    (enough : evs.length < steps) (good : l.Good L)
    (fit : (Overlay.expectThen .mappingStart msg L evs
      (readLoop (some next) badKey key L)).state.InBounds)
    (same : Refuses grants ∨ l.Represents L)
    (each : ∀ (k : Str) (l : Loader) (L : OverlayLoader) (evs : List YamlEvent),
      evs.length < steps → l.Good L → (key.read k.chars L evs).state.InBounds →
        (Refuses grants ∨ l.Represents L) → Does grants ({k.block} + blocks l) (body k l evs)
          (LoaderReads grants evs (key.read k.chars L evs))) :
    Does grants (blocks l) (expectThen .mappingStart msg (pure ()) l evs
      (keyLoop (some next) badKey keep (withKey noKey body) steps l))
      (LoaderReads grants evs (Overlay.expectThen .mappingStart msg L evs
        (readLoop (some next) badKey key L))) := by
  rw [← zero_add (blocks l)]
  refine expectThen_reads good same (.pure (zero_add _)) fun rest fewer starts => ?_
  rw [zero_add]
  rw [starts] at fit
  exact keyLoop_reads (some next) badKey back (fun l _ _ => keep_keeps l)
    (withKey_reads (fun _ => rfl) each) steps (le_refl _) (by omega) good fit same

theorem readOperations_reads (enough : evs.length < steps) (good : l.Good L)
    (fit : (Overlay.readOperations L evs).state.InBounds)
    (same : Refuses grants ∨ l.Represents L) :
    Does grants (blocks l) (readOperations steps l evs)
      (LoaderReads grants evs (Overlay.readOperations L evs)) :=
  section_reads (OverlayLoader.InBounds.of_readLoop opReader_follows .of_addOp _ _) enough good fit
    same fun k _ _ _ enough good _ same => readOp_reads k enough good same

theorem readMcast_reads (name : Str) (enough : evs.length < steps) (good : l.Good L)
    (same : Refuses grants ∨ l.Represents L) :
    Does grants ({name.block} + blocks l) (readMcast steps name l evs)
      (LoaderReads grants evs (mcastReader.read name.chars L evs)) := by
  refine expectThen_reads good same ?_ fun rest fewer _ => ?_
  · refine ((freeStr_frees (some name)).frame (blocks l)).mono ?_
    rintro ⟨⟩ _ ⟨_, rfl, rfl⟩
    exact zero_add _
  · exact wrapped_reads (readMcastEntry_reads (by omega) good same name) _

theorem readMcastGroups_reads (enough : evs.length < steps) (good : l.Good L)
    (fit : (Overlay.readMcastGroups L evs).state.InBounds)
    (same : Refuses grants ∨ l.Represents L) :
    Does grants (blocks l) (readMcastGroups steps l evs)
      (LoaderReads grants evs (Overlay.readMcastGroups L evs)) :=
  section_reads (OverlayLoader.InBounds.of_readLoop mcastReader_follows .of_addMcast _ _) enough good
    fit same fun k _ _ _ enough good _ same => readMcast_reads k enough good same

/-! ## Attribute sets -/

/-- The remembered number of slots of a set is right, and its slot is in the array of the sets. -/
structure OpenSet.Good (s : OpenSet) (sets : Block) : Prop where
  sets : s.sets = some sets
  attrs : Rows.Steady ⟨s.slot.attrs, s.cap⟩

/-- The set is this one by value. -/
structure OpenSet.Represents (s : OpenSet) (S : Overlay.OpenSet) : Prop where
  slot : s.slot.erase = S.slot.row
  cap : s.cap = S.cap

theorem OpenSet.Represents.setName {s : OpenSet} {S : Overlay.OpenSet} (same : s.Represents S) :
    s.slot.setName.chars = S.slot.setName := congrArg Prod.fst same.slot

/-- What a routine leaves that reads into a set. -/
abbrev SetReads (grants : Nat → Bool) (sets : Block) (evs : List YamlEvent)
    (R : Overlay.Reading Overlay.OpenSet) : Reading OpenSet → Multiset Block → Prop :=
  Reads grants blocks (fun s _ => s.Good sets) OpenSet.Represents evs R

/-- What is dropped of an attribute leaves its type hint. -/
theorem dropAttr_leaves (attr : AttrRow) :
    Does grants (blocks attr) (dropAttr attr) fun _ lost => lost.card ≤ 1 := by
  refine ((freeStr_frees attr.name).frame (blocks attr.typeHint)).mono ?_
  rintro ⟨⟩ _ ⟨_, rfl, rfl⟩
  rw [zero_add]
  cases attr.typeHint with
  | none => exact Nat.zero_le 1
  | some hint => exact le_refl 1

variable {sets : Block} {s : OpenSet} {S : Overlay.OpenSet} (set : Nat)

theorem readAttrInner_reads (enough : evs.length < steps) (good : s.Good sets)
    (same : Refuses grants ∨ s.Represents S) (attrId : UInt32) :
    Does grants (blocks s) (readAttrInner steps s attrId evs)
      (SetReads grants sets evs (Overlay.readAttrInner set S attrId evs)) := by
  have holds (rows : Rows AttrRow) :
      blocks ({ s with slot := { s.slot with attrs := rows.array }, cap := rows.capacity } :
        OpenSet) = blocks rows + (blocks s.sets + blocks s.slot.setName) := by
    show blocks s.sets + (blocks s.slot.setName + blocks rows) = _
    ac_rfl
  have rows : Refuses grants ∨
      Rows.Represents AttrRow.erase ⟨s.slot.attrs, s.cap⟩ (S.slot.attrs, S.cap) :=
    same.imp_right fun same => ⟨congrArg Prod.snd same.slot, same.cap⟩
  refine Does.deref_then good.sets ?_ ?_
  · show sets ∈ blocks s.sets + blocks s.slot
    rw [good.sets]
    exact Multiset.mem_add.mpr (.inl (Multiset.mem_singleton_self sets))
  rw [← show blocks (⟨attrId, none, none⟩ : AttrRow) + blocks s = blocks s from zero_add _]
  refine readEntry_reads (by decide) attrFields_mirrors dropAttr_leaves enough good.attrs rows _
    holds (fun rows steady => ⟨⟨good.sets, steady⟩, fun _ => ⟨good.sets, steady⟩⟩)
    (same.imp_right fun same rows represents => ?_)
    (same.imp_right fun same rows K represents => ?_)
  · exact ⟨Prod.ext same.setName represents.1, represents.2⟩
  · exact ⟨Prod.ext same.setName represents.1, represents.2⟩

theorem readAttr_reads (key : Str) (enough : evs.length < steps) (good : s.Good sets)
    (same : Refuses grants ∨ s.Represents S) :
    Does grants ({key.block} + blocks s) (readAttr steps key s evs)
      (SetReads grants sets evs ((attrReader set).read key.chars S evs)) := by
  refine Does.touch_then (Multiset.mem_add.mpr (.inl (Multiset.mem_singleton_self _))) ?_
  refine freeStr_then rfl ?_
  cases number : parseUint32 key.chars with
  | none =>
      have read : (attrReader set).read key.chars S evs =
          ⟨.error ["yaml: attr key not an integer"], S, evs⟩ := by simp only [attrReader, number]
      rw [read]
      refine .pure (.of_fail (S := S) good (le_refl _) ?_)
      exact same.imp_right fun represents => ⟨represents, rfl, rfl⟩
  | some attrId =>
      have read : (attrReader set).read key.chars S evs =
          Overlay.expectThen .mappingStart "yaml: attr value expected mapping" S evs
            (Overlay.readAttrInner set S attrId) := by simp only [attrReader, number]
      rw [read, ← zero_add (blocks s)]
      refine expectThen_reads good same (.pure (zero_add _))
        fun rest fewer _ => ?_
      rw [zero_add]
      exact readAttrInner_reads set (by omega) good same attrId

theorem readAttrEntriesIntoSet_reads (enough : evs.length < steps) (good : s.Good sets)
    (same : Refuses grants ∨ s.Represents S) :
    Does grants (blocks s) (readAttrEntriesIntoSet steps s evs)
      (SetReads grants sets evs (Overlay.readAttrEntriesIntoSet set S evs)) := by
  have each : KeyReads grants blocks (fun s _ => s.Good sets) OpenSet.Represents (fun _ => True)
      (withKey "yaml: oom on attr key" (readAttr steps)) (attrReader set) steps :=
    withKey_reads (fun _ => rfl) fun k _ _ _ enough good _ same =>
      readAttr_reads set k enough good same
  exact keyLoop_reads (some "yaml: attr set next") "yaml: attr set expects int key"
    (fun _ _ fit => fit) (fun s _ _ => keep_keeps s) each steps (le_refl _) enough good trivial same

section Stored

variable {setName : Str} {rows : Rows SetRow}
  (appended : Rows.Appended 16 ⟨l.out.attrSets, l.attrSetCapacity⟩ ⟨setName, .empty⟩ rows)
  (good : l.Good L)

include appended good

/-- A loader is good once the set is read that was appended, next to any such loader by value. -/
theorem storeSet_good {s : OpenSet} {sets : Block} (isGood : s.Good sets) (S : Overlay.OpenSet) :
    Loader.Good (Loader.storeSet
        { l with out := { l.out with attrSets := rows.array }, attrSetCapacity := rows.capacity }
        l.out.attrSets.items.length s)
      ((L.openSet setName.chars).storeSet L.out.attrSets.count S) := by
  obtain ⟨count, slots, capacity⟩ :=
    appended.alike (x := (⟨setName.chars, .empty⟩ : AttrSetOverlay)) good.alike
  refine ⟨good.ops, good.mcast, fun missing => absurd missing appended.placed,
    ⟨?_, slots, capacity⟩, ?_⟩
  · show (rows.array.items.set l.out.attrSets.items.length s.slot).length =
      (GrowArray.items _ |>.set L.out.attrSets.count S.slot).length
    rw [List.length_set, List.length_set]
    exact count
  · show ∀ set ∈ rows.array.items.set l.out.attrSets.items.length s.slot, set.attrs.Placed
    rw [appended.set_last]
    intro set member
    rcases List.mem_append.mp member with earlier | last
    · exact good.attrs set earlier
    · obtain rfl := List.mem_singleton.mp last
      exact isGood.attrs.ready.placed

/-- A loader is the one by value once the set is read that was appended. -/
theorem storeSet_represents (same : l.Represents L) {s : OpenSet} {S : Overlay.OpenSet}
    (represents : s.Represents S) :
    Loader.Represents (Loader.storeSet
        { l with out := { l.out with attrSets := rows.array }, attrSetCapacity := rows.capacity }
        l.out.attrSets.items.length s)
      ((L.openSet setName.chars).storeSet L.out.attrSets.count S) := by
  have count : L.out.attrSets.count = l.out.attrSets.items.length := good.alike.count.symm
  have sets : (rows.array.items.set l.out.attrSets.items.length s.slot).map SetRow.erase =
      ((L.out.attrSets.push 16 L.attrSetCapacity ⟨setName.chars, .empty⟩).array.items.set
        L.out.attrSets.count S.slot).map AttrSetOverlay.row := by
    rw [appended.set_last, GrowArray.push_items, GrowArray.count,
      List.set_append_right _ _ (le_refl _), Nat.sub_self, List.map_append, List.map_append,
      same.out.attrSets]
    show _ ++ [s.slot.erase] = _ ++ [AttrSetOverlay.row _]
    rw [represents.slot]
  refine ⟨{ same.out with attrSets := sets }, same.opCapacity, same.mcastCapacity, ?_⟩
  show rows.capacity = (L.out.attrSets.push 16 L.attrSetCapacity _).capacity
  rw [← same.attrSetCapacity]
  exact appended.capacity_push count

end Stored

theorem readSet_reads (setName : Str) (enough : evs.length < steps) (good : l.Good L)
    (fit : ((Overlay.readSet L setName.chars evs).wrap
      "yaml: attr set entries failed").state.InBounds) (same : Refuses grants ∨ l.Represents L) :
    Does grants ({setName.block} + blocks l) (readSet steps setName l evs)
      (LoaderReads grants evs
        ((Overlay.readSet L setName.chars evs).wrap "yaml: attr set entries failed")) := by
  -- What is held besides the array of the sets.
  let besides := blocks l.out.self + blocks l.out.familyName + blocks l.out.shortDesc +
    blocks l.out.longDesc + blocks l.out.ops + blocks l.out.mcast
  have loader : blocks l = besides + blocks l.out.attrSets := blocks_loader l
  have slot : blocks (⟨setName, .empty⟩ : SetRow) = {setName.block} := add_zero _
  -- The write to the array of the sets is below its slots where that by value is.
  have room : Rows.Room ⟨l.out.attrSets, l.attrSetCapacity⟩ := by
    rw [wrap_state] at fit
    exact good.alike.room (OverlayLoader.InBounds.of_storeSet _ _ _ _ fit).2
  refine (Rows.append_holds (by decide : 0 < 16) good.attrSets room ⟨setName, .empty⟩).call_then
    (show _ = blocks l.out.attrSets + blocks (⟨setName, .empty⟩ : SetRow) + besides by
      rw [slot, loader]
      ac_rfl) ?_
  intro grown left appends
  cases grown with
  | none =>
      obtain ⟨rfl, refused⟩ := appends
      refine freeStr_then (s := some setName) (show _ = {setName.block} + blocks l by
        rw [slot, loader]
        show blocks l.out.attrSets + _ + _ = _
        ac_rfl) ?_
      exact .pure (.of_fail good (le_refl _) (.inl refused))
  | some rows =>
      obtain ⟨rfl, appended⟩ := appends
      obtain ⟨b, isPlaced⟩ := Option.ne_none_iff_exists'.mp appended.placed
      have opened : OpenSet.Good ⟨rows.array.block, ⟨setName, .empty⟩, 0⟩ b :=
        ⟨isPlaced, Rows.steady_empty⟩
      have new : OpenSet.Represents ⟨rows.array.block, ⟨setName, .empty⟩, 0⟩ (.new setName.chars) :=
        ⟨rfl, rfl⟩
      refine (readAttrEntriesIntoSet_reads L.out.attrSets.count enough opened
        (.inr new)).call_then (show _ = blocks (⟨rows.array.block, ⟨setName, .empty⟩, 0⟩ : OpenSet) +
          (blocks l.out.attrSets.items + besides) by
            show blocks rows.array.block + blocks rows.array.items + besides =
              blocks rows.array.block + blocks (⟨setName, .empty⟩ : SetRow) + _
            rw [appended.items, blocks_append, blocks_cons, blocks_nil, add_zero]
            ac_rfl) ?_
      intro inner left reads
      refine wrap_reads (R := Overlay.readSet L setName.chars evs) (reads.map (fun s =>
        Loader.storeSet
          { l with out := { l.out with attrSets := rows.array }, attrSetCapacity := rows.capacity }
          l.out.attrSets.items.length s) ?_
          (fun s S isGood => ⟨_, storeSet_good appended good isGood S⟩)
          (fun s isGood _ => storeSet_good appended good isGood _) rfl rfl
          (same.imp_right fun same s represents =>
            storeSet_represents appended good same represents)) _
      intro s _ isGood
      rw [blocks_loader]
      show besides + (blocks rows.array.block +
        blocks (rows.array.items.set l.out.attrSets.items.length s.slot)) =
          blocks s.sets + blocks s.slot + _
      rw [appended.set_last, blocks_append, blocks_cons, blocks_nil, add_zero, isGood.sets, isPlaced]
      ac_rfl

theorem readNamedSet_reads (setName : Str) (enough : evs.length < steps) (good : l.Good L)
    (fit : (setReader.read setName.chars L evs).state.InBounds)
    (same : Refuses grants ∨ l.Represents L) :
    Does grants ({setName.block} + blocks l) (readNamedSet steps setName l evs)
      (LoaderReads grants evs (setReader.read setName.chars L evs)) := by
  refine expectThen_reads good same ?_ fun rest fewer starts => ?_
  · refine ((freeStr_frees (some setName)).frame (blocks l)).mono ?_
    rintro ⟨⟩ _ ⟨_, rfl, rfl⟩
    exact zero_add _
  · exact readSet_reads setName (by omega) good (starts ▸ fit) same

theorem readAttributeSets_reads (enough : evs.length < steps) (good : l.Good L)
    (fit : (Overlay.readAttributeSets L evs).state.InBounds)
    (same : Refuses grants ∨ l.Represents L) :
    Does grants (blocks l) (readAttributeSets steps l evs)
      (LoaderReads grants evs (Overlay.readAttributeSets L evs)) :=
  section_reads (OverlayLoader.InBounds.of_readLoop setReader_follows .of_addSet _ _) enough good fit
    same fun k _ _ _ enough good fit same => readNamedSet_reads k enough good fit same

/-! ## The top-level mapping -/

/-- A section is read after its key is freed. -/
theorem readSection_reads (key : Str) (msg : String) {x : Alloc (Reading Loader)}
    {R : Overlay.Reading OverlayLoader} (reads : Does grants (blocks l) x (LoaderReads grants evs R)) :
    Does grants ({key.block} + blocks l) (readSection msg key x)
      (LoaderReads grants evs (R.wrap msg)) := by
  refine Does.touch_then (Multiset.mem_add.mpr (.inl (Multiset.mem_singleton_self _))) ?_
  exact freeStr_then (s := some key) rfl (wrapped_reads reads msg)

theorem readTopKey_reads (key : Str) (enough : evs.length < steps) (good : l.Good L)
    (fit : (topReader.read key.chars L evs).state.InBounds)
    (same : Refuses grants ∨ l.Represents L) :
    Does grants ({key.block} + blocks l) (readTopKey steps key l evs)
      (LoaderReads grants evs (topReader.read key.chars L evs)) := by
  have isTop : topReader.read key.chars L evs = if key.chars = lit "operations" then
      (Overlay.readOperations L evs).wrap "yaml: operations failed"
    else if key.chars = lit "mcast_groups" then
      (Overlay.readMcastGroups L evs).wrap "yaml: mcast_groups failed"
    else if key.chars = lit "attribute_sets" then
      (Overlay.readAttributeSets L evs).wrap "yaml: attribute_sets failed"
    else (fieldReader "yaml: top map expected scalar value" OverlayLoader.assignTop).read
      key.chars L evs := rfl
  rw [isTop] at fit ⊢
  rw [readTopKey]
  split
  · next isKey =>
      rw [if_pos isKey, wrap_state] at fit
      exact readSection_reads key _ (readOperations_reads enough good fit same)
  split
  · next notOps isKey =>
      rw [if_neg notOps, if_pos isKey, wrap_state] at fit
      exact readSection_reads key _ (readMcastGroups_reads enough good fit same)
  split
  · next notOps notMcast isKey =>
      rw [if_neg notOps, if_neg notMcast, if_pos isKey, wrap_state] at fit
      exact readSection_reads key _ (readAttributeSets_reads enough good fit same)
  · have fields : KeyReads grants blocks Loader.Good Loader.Represents (fun _ => True)
        topFields.read _ steps := topFields_mirrors.read steps
    refine fields (some key) key.chars l L evs enough good trivial nofun ?_ same
    rintro _ ⟨⟩
    rfl

/-- **The document is read** as by value. -/
theorem readTop_reads (enough : evs.length < steps) (good : l.Good L)
    (fit : (Overlay.readTop L evs).state.InBounds) (same : Refuses grants ∨ l.Represents L) :
    Does grants (blocks l) (readTop steps l evs) (LoaderReads grants evs (Overlay.readTop L evs)) := by
  rw [← zero_add (blocks l)]
  refine expectThen_reads good same (.pure (zero_add _)) fun evs fewer starts => ?_
  refine expectThen_reads good same (.pure (zero_add _)) fun evs fewer starts' => ?_
  refine expectThen_reads good same (.pure (zero_add _)) fun evs fewer starts'' => ?_
  rw [zero_add]
  have back := OverlayLoader.InBounds.of_readLoop topReader_follows .of_addSection
    (some "yaml: top map next") "yaml: top map expects scalar key"
  rw [Overlay.readTop, starts, starts', starts''] at fit
  exact keyLoop_reads (some "yaml: top map next") "yaml: top map expects scalar key" back
    (fun l _ _ => keep_keeps l)
    (withKey_reads (fun _ => rfl) fun k _ _ _ enough good fit same =>
      readTopKey_reads k enough good fit same)
    steps (le_refl _) (by omega) good fit same

end Loader

end Ykern.Overlay.Memory
