import Ykern.Overlay.Load

/-!
# The nodes of the generic netlink tree

A family node carries what the kernel advertised about the family and the overlay
that was found for it. Its children are one node for each operation and one for
each multicast group, in the order in which the kernel advertised them, with the
names and descriptions the overlay has for them. A node without an overlay name
has a synthetic one.

The overlay is matched with the name the kernel assigned to a group, and the name that is
shown may be the synthetic one. The two differ for a group without a name, whose row under
its synthetic name is not found (`mcastGroupNode_described_iff`).
-/

set_option autoImplicit false

namespace Ykern.Genl

open Overlay

/-- `ykern_ynetlink_genl_op_info`. -/
structure OpInfo where
  id : UInt32
  flags : UInt32
  deriving DecidableEq

/-- `ykern_ynetlink_genl_mcast_info`. -/
structure McastInfo where
  id : UInt32
  name : Option CStr
  deriving DecidableEq

/-- `ykern_ynetlink_genl_family`. -/
structure Family where
  name : CStr
  id : UInt16
  version : UInt32
  hdrsize : UInt32
  maxattr : UInt32
  ops : List OpInfo
  mcastGroups : List McastInfo
  overlay : Option FamilyOverlay

/-- `ykern_ynetlink_genl_operation`. -/
structure Operation where
  cmdId : UInt32
  flags : UInt32
  overlayName : Option CStr
  overlayShort : Option CStr
  overlayLong : Option CStr
  deriving DecidableEq

/-- `ykern_ynetlink_genl_mcast_group`. -/
structure McastGroup where
  groupId : UInt32
  name : Option CStr
  overlayShort : Option CStr
  overlayLong : Option CStr
  deriving DecidableEq

/-- A child of a family node. -/
inductive Child where
  | operation (op : Operation)
  | mcastGroup (group : McastGroup)
  deriving DecidableEq

/-- A text that an overlay supplies, unless it is absent or empty. -/
def suppliedOr (supplied : Option CStr) (synthetic : CStr) : CStr :=
  match supplied with
  | none => synthetic
  | some text => if text = [] then synthetic else text

/-- `op_get_name`. -/
def opGetName (op : Operation) : CStr :=
  suppliedOr op.overlayName (lit "cmd-" ++ decimal op.cmdId.toNat)

/-- `mcg_get_name`. -/
def mcgGetName (group : McastGroup) : CStr :=
  suppliedOr group.name (lit "group-" ++ decimal group.groupId.toNat)

/-- The operation node `fam_populate_children` creates for an operation. -/
def operationNode (overlay : Option FamilyOverlay) (info : OpInfo) : Operation :=
  let ov := findOp overlay info.id
  { cmdId := info.id
    flags := info.flags
    overlayName := ov.bind (·.name)
    overlayShort := ov.bind (·.shortDesc)
    overlayLong := ov.bind (·.longDesc) }

/-- The group node `fam_populate_children` creates for a multicast group. -/
def mcastGroupNode (overlay : Option FamilyOverlay) (info : McastInfo) : McastGroup :=
  let ov := findMcast overlay info.name
  { groupId := info.id
    name := info.name
    overlayShort := ov.bind (·.shortDesc)
    overlayLong := ov.bind (·.longDesc) }

/-- `fam_populate_children`. -/
def famPopulateChildren (f : Family) : List Child :=
  f.ops.map (fun info => .operation (operationNode f.overlay info)) ++
    f.mcastGroups.map fun info => .mcastGroup (mcastGroupNode f.overlay info)

/-- The operation nodes of a family are those of its operations. -/
theorem operation_mem_famPopulateChildren {f : Family} {op : Operation} :
    .operation op ∈ famPopulateChildren f ↔
      ∃ info ∈ f.ops, operationNode f.overlay info = op := by
  simp [famPopulateChildren]

/-! ## The descriptions of multicast groups -/

/-- The rows for multicast groups of an overlay. -/
def mcastRows (overlay : Option FamilyOverlay) : List McastOverlay :=
  overlay.toList.flatMap fun o => o.mcast.items

/-- The descriptions of a row, if there is one. -/
def mcastDescriptions (row : Option McastOverlay) : Option CStr × Option CStr :=
  (row.bind (·.shortDesc), row.bind (·.longDesc))

/-- The descriptions of the group's node are those of the row keyed by a name, and without
such a row the node has none. -/
def McastGroup.DescribedAs (group : McastGroup) (overlay : Option FamilyOverlay) (key : CStr) :
    Prop :=
  (∀ row ∈ mcastRows overlay, row.name = some key →
      group.overlayShort = row.shortDesc ∧ group.overlayLong = row.longDesc) ∧
    ((∀ row ∈ mcastRows overlay, row.name ≠ some key) →
      group.overlayShort = none ∧ group.overlayLong = none)

/-- A row keyed by a name is found by it when no name has two rows. -/
theorem findMcast_eq_some_iff {overlay : Option FamilyOverlay}
    (distinct : ((mcastRows overlay).map (·.name)).Nodup) {key : CStr} {row : McastOverlay} :
    findMcast overlay (some key) = some row ↔ row ∈ mcastRows overlay ∧ row.name = some key := by
  have rows : findMcast overlay (some key) =
      (mcastRows overlay).find? fun g => g.name == some key := by
    cases overlay with
    | none => rfl
    | some o => simp [findMcast, mcastRows]
  rw [rows]
  exact find?_key_eq_some_iff (uniqueAt_of_nodup distinct (some key))

/-- A node is described as a key tells when it has the descriptions that are found for the
key. -/
theorem describedAs_iff {overlay : Option FamilyOverlay}
    (distinct : ((mcastRows overlay).map (·.name)).Nodup) (group : McastGroup) (key : CStr) :
    group.DescribedAs overlay key ↔
      (group.overlayShort, group.overlayLong) =
        mcastDescriptions (findMcast overlay (some key)) := by
  rw [McastGroup.DescribedAs, mcastDescriptions, Prod.mk.injEq]
  cases found : findMcast overlay (some key) with
  | some row =>
      obtain ⟨member, isKey⟩ := (findMcast_eq_some_iff distinct).mp found
      constructor
      · intro described
        exact described.1 row member isKey
      · intro same
        refine ⟨?_, ?_⟩
        · intro row' member' isKey'
          have found' := (findMcast_eq_some_iff distinct).mpr ⟨member', isKey'⟩
          obtain rfl := Option.some.inj (found.symm.trans found')
          exact same
        · intro missing
          exact absurd isKey (missing row member)
  | none =>
      have missing : ∀ row ∈ mcastRows overlay, row.name ≠ some key := by
        intro row member isKey
        rw [(findMcast_eq_some_iff distinct).mpr ⟨member, isKey⟩] at found
        cases found
      constructor
      · intro described
        exact described.2 missing
      · intro same
        refine ⟨?_, fun _ => same⟩
        intro row member isKey
        exact absurd isKey (missing row member)

/-- **A group is described by the row for the name it is shown under exactly when** the
kernel assigned it a name that is not empty, or matching the overlay with what it assigned
makes no difference: without a name the row for the synthetic name has no descriptions, and
with an empty one it has those of the row for the empty name. -/
theorem mcastGroupNode_described_iff (overlay : Option FamilyOverlay)
    (distinct : ((mcastRows overlay).map (·.name)).Nodup) (info : McastInfo) :
    (mcastGroupNode overlay info).DescribedAs overlay (mcgGetName (mcastGroupNode overlay info)) ↔
      (∃ name, info.name = some name ∧ name ≠ []) ∨
        info.name = none ∧ (∀ row ∈ mcastRows overlay,
          row.name = some (lit "group-" ++ decimal info.id.toNat) →
            row.shortDesc = none ∧ row.longDesc = none) ∨
        info.name = some [] ∧ mcastDescriptions (findMcast overlay (some [])) =
          mcastDescriptions (findMcast overlay (some (lit "group-" ++ decimal info.id.toNat))) := by
  obtain ⟨id, name⟩ := info
  rw [describedAs_iff distinct]
  show mcastDescriptions (findMcast overlay name) = mcastDescriptions (findMcast overlay
    (some (suppliedOr name (lit "group-" ++ decimal id.toNat)))) ↔ _
  match name with
  | some (c :: text) => simp [suppliedOr]
  | some [] => simp [suppliedOr]
  | none =>
      have unnamed : findMcast overlay none = none := by cases overlay <;> rfl
      simp only [suppliedOr, unnamed, reduceCtorEq, false_and, exists_false, true_and, false_or,
        or_false]
      cases found : findMcast overlay (some (lit "group-" ++ decimal id.toNat)) with
      | some row =>
          obtain ⟨member, isKey⟩ := (findMcast_eq_some_iff distinct).mp found
          constructor
          · intro same row' member' isKey'
            have found' := (findMcast_eq_some_iff distinct).mpr ⟨member', isKey'⟩
            obtain rfl := Option.some.inj (found.symm.trans found')
            obtain ⟨short, long⟩ := Prod.mk.inj same
            exact ⟨short.symm, long.symm⟩
          · intro plain
            obtain ⟨short, long⟩ := plain row member isKey
            rw [mcastDescriptions, mcastDescriptions, Option.bind_some, Option.bind_some, short,
              long]
            rfl
      | none =>
          refine iff_of_true rfl ?_
          intro row member isKey
          rw [(findMcast_eq_some_iff distinct).mpr ⟨member, isKey⟩] at found
          cases found

/-- An overlay that describes the group 7 under its synthetic name. -/
def groupSevenOverlay : FamilyOverlay :=
  { FamilyOverlay.zero with
    mcast := ⟨[⟨some (lit "group-7"), some (lit "link events"), none⟩], 8⟩ }

/-- The group 7 without a name is shown under this name, and is not described. -/
theorem groupSeven_undescribed :
    mcgGetName (mcastGroupNode (some groupSevenOverlay) ⟨7, none⟩) = lit "group-7" ∧
      (mcastGroupNode (some groupSevenOverlay) ⟨7, none⟩).overlayShort = none ∧
      ¬(mcastGroupNode (some groupSevenOverlay) ⟨7, none⟩).DescribedAs (some groupSevenOverlay)
        (lit "group-7") := by
  refine ⟨by decide +kernel, rfl, ?_⟩
  intro described
  have short := (described.1 _ (List.mem_singleton_self _) rfl).1
  cases short

/-- With a name of its own it is described by the row for that name. -/
theorem groupSeven_named :
    (mcastGroupNode (some groupSevenOverlay) ⟨9, some (lit "group-7")⟩).DescribedAs
      (some groupSevenOverlay)
      (mcgGetName (mcastGroupNode (some groupSevenOverlay) ⟨9, some (lit "group-7")⟩)) :=
  (mcastGroupNode_described_iff (some groupSevenOverlay) (List.nodup_singleton _)
    ⟨9, some (lit "group-7")⟩).mpr (.inl ⟨lit "group-7", rfl, by decide⟩)

end Ykern.Genl
