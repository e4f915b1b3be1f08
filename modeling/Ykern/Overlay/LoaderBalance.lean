import Ykern.Overlay.LoaderSections
import Ykern.Overlay.Load

/-!
# Loading an overlay gives everything back

Whichever requests are refused, loading the overlay of a family touches and frees only what is
held, and ends with nothing but its result held (`overlayLoad_balanced`). Destroying the result,
be it an overlay or an error, leaves nothing.

The one block that may be lost is the type hint of an attribute for which there is no room in its
set. Unless a request is refused, the overlay is the one that is loaded by value.
-/

set_option autoImplicit false

namespace Ykern.Overlay.Memory

open Alloc Holder

variable {grants : Nat → Bool} {held more : Multiset Block}

instance {α : Type} [Holder α] : Holder (Except Failure α) where
  blocks
    | .error e => blocks e
    | .ok a => blocks a

instance : Holder Bool where
  blocks _ := 0

/-! ## Destroying an overlay -/

/-- The arrays of an overlay have blocks for their items. -/
structure HeldOverlay.Placed (o : HeldOverlay) : Prop where
  ops : o.ops.Placed
  mcast : o.mcast.Placed
  attrSets : o.attrSets.Placed
  attrs : ∀ set ∈ o.attrSets.items, set.attrs.Placed

/-- The strings of a row are freed, and the array it is in is still held. -/
theorem freeRow_frees (b : Block) (strings : List (Option Str)) :
    Does grants (blocks strings + {b}) (freeRow (some b) strings) fun _ held' => held' = {b} := by
  refine Does.touch_then (Multiset.mem_add.mpr (.inr (Multiset.mem_singleton_self b))) ?_
  refine Does.forM strings fun s _ => ?_
  refine ((freeStr_frees s).frame {b}).mono ?_
  rintro ⟨⟩ _ ⟨_, rfl, rfl⟩
  exact zero_add _

/-- The items of an array are freed, then the array. -/
theorem freeArr_frees {α : Type} [Holder α] {a : Arr α} {body : α → Alloc Unit} (placed : a.Placed)
    (each : ∀ b, a.block = some b → ∀ item ∈ a.items,
      Does grants (blocks item + {b}) (body item) fun _ held' => held' = {b}) :
    Does grants (blocks a) (do
      a.items.forM body
      freeBlock a.block) fun _ held' => held' = 0 := by
  obtain ⟨block, items⟩ := a
  have items_then : Does grants (blocks items + blocks block) (items.forM body) fun _ held' =>
      held' = blocks block := by
    refine Does.forM items fun item member => ?_
    cases block with
    | none =>
        have none : items = [] := placed rfl
        rw [none] at member
        cases member
    | some b => exact each b rfl item member
  refine items_then.call_then (show _ = blocks items + blocks block + 0 by
    rw [add_zero, add_comm]
    rfl) ?_
  rintro ⟨⟩ _ rfl
  rw [add_zero]
  exact Does.freeBlock block

theorem freeArr_then {α β : Type} [Holder α] {a : Arr α} {body : α → Alloc Unit} {x : Alloc β}
    {post : β → Multiset Block → Prop} (placed : a.Placed)
    (each : ∀ b, a.block = some b → ∀ item ∈ a.items,
      Does grants (blocks item + {b}) (body item) fun _ held' => held' = {b})
    (split : held = blocks a + more) (rest : Does grants more x post) :
    Does grants held (do
      a.items.forM body
      freeBlock a.block
      x) post := by
  rw [← bind_assoc]
  refine (freeArr_frees placed each).call_then split ?_
  rintro ⟨⟩ _ rfl
  rwa [zero_add]

/-- The rows of an array, each of which holds these strings. -/
theorem rows_each {α : Type} [Holder α] {a : Arr α} {strings : α → List (Option Str)}
    (all : ∀ row, blocks row = blocks (strings row)) (b : Block) (is : a.block = some b) (row : α)
    (_ : row ∈ a.items) : Does grants (blocks row + {b}) (freeRow a.block (strings row)) fun _ held' =>
      held' = {b} := by
  rw [all, is]
  exact freeRow_frees b (strings row)

theorem freeSet_frees (b : Block) {set : SetRow} (placed : set.attrs.Placed) :
    Does grants (blocks set + {b}) (freeSet (some b) set) fun _ held' => held' = {b} := by
  have attrs (attr : AttrRow) : blocks attr = blocks (attrFields.strings attr) := by
    show blocks attr.name + blocks attr.typeHint = _
    simp only [attrFields, blocks_cons, blocks_nil, add_zero]
  refine Does.touch_then (Multiset.mem_add.mpr (.inr (Multiset.mem_singleton_self b))) ?_
  refine freeStr_then (s := some set.setName) (show _ = blocks set.setName +
    (blocks set.attrs + {b}) from add_assoc _ _ _) ?_
  refine ((freeArr_frees placed (rows_each attrs)).frame {b}).mono ?_
  rintro ⟨⟩ _ ⟨_, rfl, rfl⟩
  exact zero_add _

/-- **Destroying an overlay** frees all it holds. -/
theorem overlayDestroy_frees {o : HeldOverlay} (placed : o.Placed) :
    Does grants (blocks o) (overlayDestroy (some o)) fun _ held' => held' = 0 := by
  have ops (row : OpOverlay Str) : blocks row = blocks (opFields.strings row) := by
    show blocks row.name + blocks row.shortDesc + blocks row.longDesc = _
    simp only [opFields, blocks_cons, blocks_nil, add_zero, add_assoc]
  have mcast (row : McastRow) : blocks row = blocks (mcastFields.strings row) := by
    show blocks row.name + blocks row.shortDesc + blocks row.longDesc = _
    simp only [mcastFields, blocks_cons, blocks_nil, add_zero, add_assoc]
  have split : blocks o = blocks o.familyName + (blocks o.shortDesc + (blocks o.longDesc +
      (blocks o.ops + (blocks o.mcast + (blocks o.attrSets + {o.self}))))) := by
    show {o.self} + blocks o.familyName + blocks o.shortDesc + blocks o.longDesc + blocks o.ops +
      blocks o.mcast + blocks o.attrSets = _
    ac_rfl
  rw [split]
  refine Does.touch_then (by simp only [Multiset.mem_add, Multiset.mem_singleton, or_true]) ?_
  refine freeStr_then rfl (freeStr_then rfl (freeStr_then rfl ?_))
  refine freeArr_then placed.ops (rows_each ops) rfl ?_
  refine freeArr_then placed.mcast (rows_each mcast) rfl ?_
  refine freeArr_then placed.attrSets ?_ rfl (Does.freeBlock (some o.self))
  intro b is set member
  rw [is]
  exact freeSet_frees b (placed.attrs set member)

/-! ## Merging the operations -/

/-- What rows of operations hold are their strings. -/
theorem blocks_ops (rows : List (OpOverlay Str)) :
    blocks rows = ((strings rows).map Str.block : List Block) := by
  have optional (s : Option Str) : blocks s = (s.toList.map Str.block : List Block) := by
    cases s with
    | none => rfl
    | some s => rfl
  induction rows with
  | nil => rfl
  | cons row rows ih =>
      rw [blocks_cons, ih, strings_cons, List.map_append, ← Multiset.coe_add]
      congr 1
      rw [OpOverlay.strings, List.map_append, List.map_append, ← Multiset.coe_add,
        ← Multiset.coe_add, ← optional, ← optional, ← optional]
      rfl

theorem sameName_erase (row cur : OpOverlay Str) :
    SameName id (eraseOp row) (eraseOp cur) ↔ SameName Str.chars row cur := by
  simp only [SameName, eraseOp, Option.isSome_map, Option.map_id_fun, id_eq]

theorem describe_erase (rows : List (OpOverlay Str)) (cur : OpOverlay Str) :
    (describe Str.chars rows cur).map eraseOp = describe id (rows.map eraseOp) (eraseOp cur) := by
  induction rows with
  | nil => rfl
  | cons row rows ih =>
      by_cases matched : row.IdKeyed ∧ SameName Str.chars row cur
      · have matched' : (eraseOp row).IdKeyed ∧ SameName id (eraseOp row) (eraseOp cur) :=
          matched.imp_right (sameName_erase row cur).mpr
        rw [describe_cons_pos matched, List.map_cons, List.map_cons, describe_cons_pos matched']
        rfl
      · have unmatched : ¬((eraseOp row).IdKeyed ∧ SameName id (eraseOp row) (eraseOp cur)) :=
          fun both => matched (both.imp_right (sameName_erase row cur).mp)
        rw [describe_cons_neg matched, List.map_cons, List.map_cons, describe_cons_neg unmatched,
          ih]

/-- Merging by value is merging in memory. -/
theorem merged_erase (rows : List (OpOverlay Str)) :
    (merged Str.chars rows).map eraseOp = merged id (rows.map eraseOp) := by
  have fold (named : List (OpOverlay Str)) : ∀ keyed : List (OpOverlay Str),
      (named.foldl (describe Str.chars) keyed).map eraseOp =
        (named.map eraseOp).foldl (describe id) (keyed.map eraseOp) := by
    induction named with
    | nil => exact fun _ => rfl
    | cons cur named ih =>
        intro keyed
        rw [List.foldl_cons, ih, describe_erase]
        rfl
  rw [merged, fold, merged, List.filter_map, List.filter_map]
  rfl

/-- The operations are merged as by value, and what is left out is freed. -/
theorem mergeOps_holds {o : HeldOverlay} {O : FamilyOverlay} (placed : o.Placed)
    (same : Refuses grants ∨ o.Represents O) :
    Does grants (blocks o) (mergeOps o) fun o' held' => held' = blocks o' ∧ o'.Placed ∧
      (Refuses grants ∨ o'.Represents
        { O with
          ops := { O.ops with items := (mergeCuratedIntoGenerated id O.ops.items).val } }) := by
  obtain ⟨value, owns⟩ := mergeCuratedIntoGenerated_merged Str.chars o.ops.items
  obtain ⟨besides, overlay⟩ : ∃ besides, ∀ rows : List (OpOverlay Str),
      blocks { o with ops := { o.ops with items := rows } } = blocks rows + besides := by
    refine ⟨{o.self} + blocks o.familyName + blocks o.shortDesc + blocks o.longDesc +
      blocks o.ops.block + blocks o.mcast + blocks o.attrSets, fun rows => ?_⟩
    show {o.self} + blocks o.familyName + blocks o.shortDesc + blocks o.longDesc +
      (blocks o.ops.block + blocks rows) + blocks o.mcast + blocks o.attrSets = _
    ac_rfl
  refine (Does.ofTraced Str.block owns).call_then
    (show _ = ((strings o.ops.items).map Str.block : List Block) + besides by
      rw [← blocks_ops, ← overlay]) ?_
  rintro _ _ ⟨rfl, rfl⟩
  rw [value, ← blocks_ops]
  refine .pure ⟨(overlay _).symm, ?_, same.imp_right fun same => ?_⟩
  · refine ⟨fun missing => ?_, placed.mcast, placed.attrSets, placed.attrs⟩
    show merged Str.chars o.ops.items = []
    rw [placed.ops missing]
    rfl
  · refine { same with ops := ?_ }
    show (merged Str.chars o.ops.items).map eraseOp = _
    rw [merged_erase, same.ops, (mergeCuratedIntoGenerated_merged id O.ops.items).1]

/-! ## Files -/

/-- The overlay is ready to be loaded into next to this one by value: its operations and multicast
groups have slots, and its sets are as many as those by value and have as many slots. -/
structure HeldOverlay.Good (o : HeldOverlay) (O : FamilyOverlay) : Prop where
  placed : o.Placed
  ops : o.ops.items.length ≤ o.ops.slots
  mcast : o.mcast.items.length ≤ o.mcast.slots
  count : o.attrSets.items.length = O.attrSets.count
  slots : o.attrSets.slots = O.attrSets.slots

theorem HeldOverlay.zero_good (self : Block) : (HeldOverlay.zero self).Good .zero :=
  ⟨⟨fun _ => rfl, fun _ => rfl, fun _ => rfl, nofun⟩, le_refl 0, le_refl 0, rfl, rfl⟩

theorem Loader.Good.out {l : Loader} {L : OverlayLoader} (good : l.Good L) : l.out.Good L.out where
  placed := ⟨good.ops.ready.placed, good.mcast.ready.placed, good.attrSets.placed, good.attrs⟩
  ops := good.ops.counted.trans good.ops.allocated
  mcast := good.mcast.counted.trans good.mcast.allocated
  count := good.alike.count
  slots := good.alike.slots

/-- The loader of a file remembers as many slots for operations and multicast groups as there are
items, and none for sets. -/
theorem resume_good {o : HeldOverlay} {O : FamilyOverlay} (good : o.Good O) :
    (Loader.resume o).Good (.resume O) := by
  obtain ⟨placed, ops, mcast, count, slots⟩ := good
  refine ⟨⟨fun missing => ⟨placed.ops missing, ?_⟩, le_refl _, ops⟩,
    ⟨fun missing => ⟨placed.mcast missing, ?_⟩, le_refl _, mcast⟩,
    fun missing => ⟨placed.attrSets missing, rfl⟩, ⟨count, slots, rfl⟩, placed.attrs⟩
  · show o.ops.items.length = 0
    rw [placed.ops missing]
    rfl
  · show o.mcast.items.length = 0
    rw [placed.mcast missing]
    rfl

theorem resume_represents {o : HeldOverlay} {O : FamilyOverlay} (same : o.Represents O) :
    (Loader.resume o).Represents (.resume O) := by
  refine ⟨same, ?_, ?_, rfl⟩
  · have lengths := congrArg List.length same.ops
    rwa [List.length_map] at lengths
  · have lengths := congrArg List.length same.mcast
    rwa [List.length_map] at lengths

/-- What loading a file leaves. Unless it failed, the file by value did not fail either. -/
structure Loads (grants : Nat → Bool) (R : Overlay.Loaded) (r : Loaded) (held : Multiset Block) :
    Prop where
  balance : ∃ lost, held = blocks r.loadedAny + blocks r.out + lost ∧ Lost grants r.loadedAny lost
  placed : r.out.Placed
  follows : ∀ any, r.loadedAny = .ok any → R.loadedAny = .ok any ∧ r.out.Good R.out
  agrees : Refuses grants ∨
    (r.loadedAny.mapError Failure.messages = R.loadedAny ∧ r.out.Represents R.out)

/-- Loading a file ends with an error of its own. -/
theorem Loads.of_fail {R : Overlay.Loaded} {msg : String} {o : HeldOverlay} (placed : o.Placed)
    (told : Refuses grants ∨ (o.Represents R.out ∧ R.loadedAny = .error [msg])) :
    Loads grants R ⟨.error (.plain msg), o⟩ (blocks o) := by
  refine ⟨⟨0, ?_, .nothing _⟩, placed, nofun, told.imp_right fun told => ?_⟩
  · show blocks o = blocks (Failure.plain msg) + blocks o + 0
    rw [blocks_plain, zero_add, add_zero]
  · exact ⟨told.2.symm, told.1⟩

/-- **A file is loaded** as by value, if that does not write behind an array. -/
theorem loadOneFile_loads {o : HeldOverlay} {O : FamilyOverlay} (good : o.Good O)
    (file : OverlayFile) (fit : ∀ access ∈ (Overlay.loadOneFile O file).log, access.2.InBounds)
    (same : Refuses grants ∨ o.Represents O) :
    Does grants (blocks o) (loadOneFile o file) (Loads grants (Overlay.loadOneFile O file)) := by
  cases file with
  | absent =>
      refine .pure ⟨⟨0, ?_, .nothing _⟩, good.placed, ?_, same.imp_right fun same => ⟨rfl, same⟩⟩
      · show blocks o = 0 + blocks o + 0
        rw [zero_add, add_zero]
      · rintro _ ⟨⟩
        exact ⟨rfl, good⟩
  | unreadable => exact .pure (.of_fail good.placed (same.imp_right fun same => ⟨same, rfl⟩))
  | events evs =>
      refine Does.malloc_then fun f refused => ?_
      cases f with
      | none =>
          rw [blocks_none, zero_add]
          exact .pure (.of_fail good.placed (.inl (refused rfl)))
      | some f =>
          refine Does.malloc_then fun parser refused => ?_
          cases parser with
          | none =>
              refine Does.free_then (zero_add _) ?_
              exact .pure (.of_fail good.placed (.inl (refused rfl)))
          | some parser =>
              rw [(Overlay.loadOneFile_events O evs).2] at fit
              refine (readTop_reads (Nat.lt_succ_self _) (resume_good good) fit
                (same.imp_right resume_represents)).call_then
                (show _ = blocks o + (blocks (some parser) + blocks (some f)) by ac_rfl) ?_
              rintro ⟨result, l, rest⟩ left reads
              refine Does.free_then (add_left_comm _ _ _) (Does.free_then (add_comm _ _) ?_)
              obtain ⟨lost, rfl, isLost⟩ := reads.balance
              obtain ⟨L, usable⟩ := reads.usable
              cases result with
              | error e =>
                  refine (causedBy_holds "overlay_load: yaml parse failed" e).call_then
                    (add_assoc _ _ _) ?_
                  rintro e' _ ⟨rfl, told⟩
                  refine .pure ⟨⟨lost, (add_assoc _ _ _).symm, isLost.few, ?_⟩, usable.out.placed,
                    ?_, ?_⟩
                  · exact fun something => ⟨(isLost.cause something).1, e', rfl⟩
                  · rintro _ ⟨⟩
                  · rcases told with refused | messages
                    · exact .inl refused
                    refine reads.agrees.imp_right fun agrees => ?_
                    have failed := agrees.result
                    rw [Overlay.loadOneFile]
                    simp only [← failed, Except.mapError]
                    exact ⟨by rw [messages], agrees.state.out⟩
              | ok u =>
                  obtain rfl := isLost.of_ok
                  obtain ⟨read, isGood, -⟩ := reads.follows rfl
                  have loaded : Overlay.loadOneFile O (.events evs) =
                      ⟨.ok true, (Overlay.readTop (.resume O) evs).state.out,
                        (Overlay.readTop (.resume O) evs).state.log⟩ := by
                    rw [Overlay.loadOneFile]
                    simp only [read]
                  rw [loaded]
                  refine .pure ⟨⟨0, ?_, .nothing _⟩, usable.out.placed, ?_, ?_⟩
                  · show blocks l + 0 = 0 + blocks l + 0
                    rw [zero_add]
                  · rintro _ ⟨⟩
                    exact ⟨rfl, isGood.out⟩
                  · exact reads.agrees.imp_right fun agrees => ⟨rfl, agrees.state.out⟩

/-! ## The overlay of a family -/

/-- The result is this one by value. -/
inductive SameResult : Except Failure (Option HeldOverlay) → Except Error (Option FamilyOverlay) → Prop
  | error (e : Failure) : SameResult (.error e) (.error e.messages)
  | absent : SameResult (.ok none) (.ok none)
  | loaded {o : HeldOverlay} {O : FamilyOverlay} (same : o.Represents O) :
      SameResult (.ok (some o)) (.ok (some O))

/-- What loading the overlay of a family leaves: its result, with nothing lost but a hint, to be
released without a rest, and the result by value unless a request was refused. -/
structure Balanced (grants : Nat → Bool) (R : Except Error (Option FamilyOverlay))
    (r : Except Failure (Option HeldOverlay)) (held : Multiset Block) : Prop where
  balance : ∃ lost, held = blocks r + lost ∧ Lost grants r lost
  released : Does grants (blocks r) (release r) fun _ left => left = 0
  agrees : Refuses grants ∨ SameResult r R

/-- What loading ends with that fails, after what was lost before. -/
theorem Balanced.of_error {R : Except Error (Option FamilyOverlay)} {e : Failure}
    {lost : Multiset Block} (few : lost.card ≤ 1) (cause : lost ≠ 0 → Refuses grants)
    (told : Refuses grants ∨ R = .error e.messages) :
    Balanced grants R (.error e) (blocks e + lost) := by
  refine ⟨⟨lost, rfl, few, fun something => ⟨cause something, e, rfl⟩⟩, errorDestroy_frees e, ?_⟩
  refine told.imp_right ?_
  rintro rfl
  exact .error e

theorem HeldOverlay.zero_blocks (self : Block) :
    blocks (HeldOverlay.zero self) = ({self} : Multiset Block) := by
  show ({self} : Multiset Block) + 0 + 0 + 0 + (0 + 0) + (0 + 0) + (0 + 0) = {self}
  simp only [add_zero]

/-- What a file leaves that was loaded, or was not there. -/
theorem Loads.of_ok {R : Overlay.Loaded} {loadedAny : Bool} {o : HeldOverlay}
    (loads : Loads grants R ⟨.ok loadedAny, o⟩ held) : held = blocks o ∧
      R.loadedAny = .ok loadedAny ∧ o.Good R.out ∧ (Refuses grants ∨ o.Represents R.out) := by
  obtain ⟨lost, rfl, isLost⟩ := loads.balance
  obtain rfl := isLost.of_ok
  obtain ⟨read, good⟩ := loads.follows loadedAny rfl
  refine ⟨?_, read, good, loads.agrees.imp_right And.right⟩
  show 0 + blocks o + 0 = blocks o
  rw [zero_add, add_zero]

/-- The overlay is given up after a file, and the error is wrapped. -/
theorem giveUp_balanced {R : Except Error (Option FamilyOverlay)} {O : Overlay.Loaded}
    {e : Failure} {o : HeldOverlay} {msg : String} (loads : Loads grants O ⟨.error e, o⟩ held)
    (told : ∀ E, O.loadedAny = .error E → R = .error (msg :: E)) :
    Does grants held (do
      overlayDestroy (some o)
      let e ← causedBy msg e
      pure (.error e)) (Balanced grants R) := by
  obtain ⟨lost, rfl, isLost⟩ := loads.balance
  refine (overlayDestroy_frees loads.placed).call_then
    (show _ = blocks o + (blocks e + lost) by
      show blocks e + blocks o + lost = _
      ac_rfl) ?_
  rintro ⟨⟩ _ rfl
  refine (causedBy_holds msg e).call_then (zero_add _) ?_
  rintro e' _ ⟨rfl, messages⟩
  refine .pure (.of_error isLost.few (fun something => (isLost.cause something).1) ?_)
  rcases messages with refused | messages
  · exact .inl refused
  refine loads.agrees.imp_right fun agrees => ?_
  rw [messages, told _ agrees.1.symm]

/-- The overlay is destroyed when there is no file. -/
theorem noFile_balanced {R : Except Error (Option FamilyOverlay)} {o : HeldOverlay}
    (placed : o.Placed) (told : R = .ok none) :
    Does grants (blocks o) (do
      overlayDestroy (some o)
      pure (.ok none)) (Balanced grants R) := by
  refine (overlayDestroy_frees placed).bind ?_
  rintro ⟨⟩ _ rfl
  exact .pure ⟨⟨0, rfl, .nothing _⟩, .pure rfl, .inr (told ▸ .absent)⟩

/-- The overlay is returned after its operations are merged. -/
theorem merged_balanced {R : Except Error (Option FamilyOverlay)} {o : HeldOverlay}
    {O : FamilyOverlay} (placed : o.Placed) (same : Refuses grants ∨ o.Represents O)
    (told : R = .ok (some { O with
      ops := { O.ops with items := (mergeCuratedIntoGenerated id O.ops.items).val } })) :
    Does grants (blocks o) (do
      let o ← mergeOps o
      pure (.ok (some o))) (Balanced grants R) := by
  refine (mergeOps_holds placed same).bind ?_
  rintro o' _ ⟨rfl, placed, same⟩
  refine .pure ⟨⟨0, (add_zero _).symm, .nothing _⟩, overlayDestroy_frees placed, ?_⟩
  rw [told]
  exact same.imp_right .loaded

/-- **Loading the overlay of a family gives everything back**, when the attribute sets it reads fit
the slots they are given. Whichever requests are refused, it touches and frees only what it holds,
and writes no item behind the slots of an array. It holds nothing in the end but its result, apart
from a type hint after a request was refused, and releasing the result leaves nothing. Unless a
request is refused, its result is the one by value. -/
theorem overlayLoad_balanced (grants : Nat → Bool) (base : CStr) (files : CStr → OverlayFile)
    (familyName : CStr) (fit : SetsFit (readFiles base files familyName)) :
    Does grants 0 (overlayLoad base files familyName)
      (Balanced grants (Overlay.overlayLoad base files familyName)) := by
  have failed {msg : String} {R : Except Error (Option FamilyOverlay)}
      (told : Refuses grants ∨ R = .error [msg]) :
      Balanced grants R (.error (.plain msg)) 0 := .of_error (Nat.zero_le _) nofun told
  have bounds := (loadFiles_log_inBounds_iff _).mpr fit
  rw [← overlayLoadLog_eq, overlayLoadLog] at bounds
  rw [overlayLoad, Overlay.overlayLoad]
  by_cases longGenerated : 4096 ≤ (generatedPath base familyName).length
  · rw [if_pos longGenerated, if_pos longGenerated]
    exact .pure (failed (.inr rfl))
  rw [if_neg longGenerated] at bounds ⊢
  rw [if_neg longGenerated]
  by_cases longCurated : 4096 ≤ (curatedPath base familyName).length
  · rw [if_pos longCurated, if_pos longCurated]
    exact .pure (failed (.inr rfl))
  rw [if_neg longCurated] at bounds ⊢
  rw [if_neg longCurated]
  refine Does.malloc_then fun self refused => ?_
  cases self with
  | none => exact .pure (failed (.inl (refused rfl)))
  | some self =>
      have represents : (HeldOverlay.zero self).Represents .zero := ⟨rfl, rfl, rfl, rfl, rfl, rfl⟩
      dsimp only at bounds ⊢
      generalize files (generatedPath base familyName) = generated at bounds ⊢
      generalize files (curatedPath base familyName) = curated at bounds ⊢
      have generatedFits :
          ∀ access ∈ (Overlay.loadOneFile .zero generated).log, access.2.InBounds := by
        intro access member
        refine bounds access ?_
        split
        · exact member
        · exact List.mem_append_left _ member
      refine (loadOneFile_loads (HeldOverlay.zero_good self) generated generatedFits
        (.inr represents)).call_then
        (show _ = blocks (HeldOverlay.zero self) + 0 by rw [HeldOverlay.zero_blocks]; rfl) ?_
      rintro ⟨loadedGenerated, o⟩ left loads
      rw [add_zero]
      dsimp only
      generalize Overlay.loadOneFile .zero generated = G at bounds loads ⊢
      cases loadedGenerated with
      | error e => exact giveUp_balanced loads fun E failed => by rw [failed]
      | ok loadedGenerated =>
          obtain ⟨rfl, read, good, same⟩ := loads.of_ok
          have curatedFits :
              ∀ access ∈ (Overlay.loadOneFile G.out curated).log, access.2.InBounds := by
            intro access member
            refine bounds access ?_
            simp only [read]
            exact List.mem_append_right _ member
          refine (loadOneFile_loads good curated curatedFits same).call_then (add_zero _).symm ?_
          rintro ⟨loadedCurated, o'⟩ left' loads'
          rw [add_zero]
          dsimp only
          generalize Overlay.loadOneFile G.out curated = C at loads' ⊢
          cases loadedCurated with
          | error e => exact giveUp_balanced loads' fun E failed => by simp only [read, failed]
          | ok loadedCurated =>
              obtain ⟨rfl, read', good', same'⟩ := loads'.of_ok
              by_cases neither : loadedGenerated = false ∧ loadedCurated = false
              · simp only [if_pos neither]
                refine noFile_balanced good'.placed ?_
                simp only [read, read', if_pos neither]
              · simp only [if_neg neither]
                refine merged_balanced good'.placed same' ?_
                simp only [read, read', if_neg neither]

/-- Two files with three sets between them are loaded, although the twentieth request is refused. -/
theorem overlayLoad_twoFiles :
    Does (fun request => request != 20) 0
      (overlayLoad (lit "/metadata") (fun path =>
        if path = curatedPath (lit "/metadata") (lit "crowded") then fileWithSets 1
        else fileWithSets 2) (lit "crowded"))
      (Balanced (fun request => request != 20)
        (Overlay.overlayLoad (lit "/metadata") (fun path =>
          if path = curatedPath (lit "/metadata") (lit "crowded") then fileWithSets 1
          else fileWithSets 2) (lit "crowded"))) :=
  overlayLoad_balanced _ _ _ _ (by decide +kernel)

end Ykern.Overlay.Memory
