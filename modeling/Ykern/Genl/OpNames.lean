import Ykern.Genl.Nodes

/-!
# The names and descriptions of operations

The generated file of a family binds ids to names, and the curated file binds
names to descriptions. An operation node of the family should then carry the name
bound to its id and the descriptions bound to that name.

The loader marks the rows keyed by a name by the id 0, which is an id like any
other: the row of an entry for the id 0 is taken for one keyed by a name and merged
away. The node for the id 0 falls back to its synthetic name and has no
descriptions, and the nodes for all other ids are as they should be
(`operationNode_iff`), as long as the entries keyed by a name go by their keys
(`goesByKey_of_unnamed`).
-/

set_option autoImplicit false

namespace Ykern.Genl

open Overlay

/-- The entries that are keyed by an id. -/
def idEntries (entries : List Entry) : List Entry :=
  entries.filter fun e => (parseUint32 e.key).isSome

/-- The entries that are keyed by a name. -/
def nameEntries (entries : List Entry) : List Entry :=
  entries.filter fun e => (parseUint32 e.key).isNone

/-- The row the merge takes the descriptions for a name from: the last row keyed by a
name that carries it. -/
def carriedFor (entries : List Entry) (name : CStr) : Option (OpOverlay CStr) :=
  (((nameEntries entries).map opRow).filter fun row => row.name = some name).getLast?

/-- The curated entry keyed by a name, the last if there are several. -/
def curatedFor (entries : List Entry) (name : CStr) : Option Entry :=
  ((nameEntries entries).filter fun e => e.key = name).getLast?

/-- The descriptions the merge finds for the entry of an id, which are its own when no
row keyed by a name carries its name, are those of the curated entry for the name. -/
def GoesByKey (entries : List Entry) (e : Entry) (name : CStr) : Prop :=
  ∀ c, curatedFor entries name = some c →
    ((carriedFor entries name).getD (opRow e)).shortDesc = (opRow c).shortDesc ∧
      ((carriedFor entries name).getD (opRow e)).longDesc = (opRow c).longDesc

/-- Entries keyed by a name carry their key, unless a field overrides it. -/
theorem carriedFor_of_unnamed {entries : List Entry}
    (unnamed : ∀ c ∈ nameEntries entries, ∀ f ∈ c.fields, f.1 ≠ lit "name") (name : CStr) :
    carriedFor entries name = (curatedFor entries name).map opRow := by
  have sameRows : (nameEntries entries).filter (fun e => (opRow e).name = some name) =
      (nameEntries entries).filter fun e => e.key = name := by
    apply List.filter_congr
    intro e member
    have isName : parseUint32 e.key = none := by
      simpa [nameEntries] using (List.mem_filter.mp member).2
    rw [opRow_name_of_key isName (unnamed e member)]
    simp
  rw [carriedFor, curatedFor, List.filter_map, List.getLast?_map]
  exact congrArg (fun es => es.getLast?.map opRow) sameRows

theorem goesByKey_of_unnamed {entries : List Entry}
    (unnamed : ∀ c ∈ nameEntries entries, ∀ f ∈ c.fields, f.1 ≠ lit "name") (e : Entry)
    (name : CStr) : GoesByKey entries e name := by
  intro c curated
  rw [carriedFor_of_unnamed unnamed, curated]
  exact ⟨rfl, rfl⟩

/-- The ids that key entries, and the names these entries have, are distinct. -/
structure DistinctIds (entries : List Entry) : Prop where
  ids : ((idEntries entries).map fun e => parseUint32 e.key).Nodup
  names : ((idEntries entries).map fun e => (opRow e).name).Nodup

variable {entries : List Entry}

/-- Of the rows that look keyed by a name, those that carry a name are the ones
that are, unless the name is that of the entry for the id 0. -/
theorem named_filter {e : Entry} {k : UInt32} {name : CStr} (distinct : DistinctIds entries)
    (member : e ∈ entries) (keyed : parseUint32 e.key = some k) (nonzero : k ≠ 0)
    (named : (opRow e).name = some name) :
    (((entries.map opRow).filter fun row => ¬row.IdKeyed).filter
        fun row => row.name = some name) =
      ((nameEntries entries).map opRow).filter fun row => row.name = some name := by
  rw [List.filter_map, List.filter_map, List.filter_map, nameEntries, List.filter_filter,
    List.filter_filter]
  congr 1
  apply List.filter_congr
  intro other member'
  cases number : parseUint32 other.key with
  | none => simp [OpOverlay.IdKeyed, opRow_cmdId_of_name number]
  | some k' =>
      by_cases zero : k' = 0
      · -- The entry for the id 0 has another name.
        have differs : (opRow other).name ≠ some name := by
          intro same
          have equal : other = e := List.inj_on_of_nodup_map distinct.names
            (List.mem_filter.mpr ⟨member', by simp [number]⟩)
            (List.mem_filter.mpr ⟨member, by simp [keyed]⟩) (same.trans named.symm)
          rw [equal, keyed] at number
          exact nonzero ((Option.some.inj number).trans zero)
        simp [differs]
      · simp [OpOverlay.IdKeyed, opRow_cmdId_of_number number, zero]

/-- Splitting the entries at one keyed by an id: no entry before it is keyed by
the same id or has the same name. -/
theorem DistinctIds.before {before after : List Entry} {e : Entry} {k : UInt32}
    (distinct : DistinctIds (before ++ e :: after)) (keyed : parseUint32 e.key = some k)
    {other : Entry} (member : other ∈ before) (number : (parseUint32 other.key).isSome = true) :
    parseUint32 other.key ≠ some k ∧ (opRow other).name ≠ (opRow e).name := by
  have split : idEntries (before ++ e :: after) = idEntries before ++ e :: idEntries after := by
    simp [idEntries, keyed]
  have listed : other ∈ idEntries before := List.mem_filter.mpr ⟨member, number⟩
  obtain ⟨ids, names⟩ := distinct
  rw [split, List.map_append, List.map_cons] at ids names
  constructor
  · rw [← keyed]
    exact (List.nodup_append.mp ids).2.2 _ (List.mem_map_of_mem listed) _ (by simp)
  · exact (List.nodup_append.mp names).2.2 _ (List.mem_map_of_mem listed) _ (by simp)

/-- **The merged row for an id other than 0**: it has its name, and the curated
descriptions for the name when there are any. -/
theorem find_merged {e : Entry} {k : UInt32} {name : CStr} (distinct : DistinctIds entries)
    (member : e ∈ entries) (keyed : parseUint32 e.key = some k) (nonzero : k ≠ 0)
    (named : (opRow e).name = some name) :
    (merged id (entries.map opRow)).find? (fun row => row.cmdId == k) =
      some (match carriedFor entries name with
        | none => opRow e
        | some cur => (opRow e).describedBy cur) := by
  have rowId := opRow_cmdId_of_number keyed
  have namedRows := named_filter distinct member keyed nonzero named
  obtain ⟨es, es', rfl⟩ := List.append_of_mem member
  have earlier : ∀ row ∈ (es.map opRow).filter (·.IdKeyed),
      row.cmdId ≠ k ∧ row.name ≠ some name := by
    intro row listed
    obtain ⟨mapped, isKeyed⟩ := List.mem_filter.mp listed
    obtain ⟨other, member', rfl⟩ := List.mem_map.mp mapped
    cases number : parseUint32 other.key with
    | none => simp [OpOverlay.IdKeyed, opRow_cmdId_of_name number] at isKeyed
    | some k' =>
        have apart := distinct.before keyed member' (by simp [number])
        rw [opRow_cmdId_of_number number, ← named]
        exact ⟨fun same => apart.1 (by rw [number, same]), apart.2⟩
  have split : ((es ++ e :: es').map opRow).filter (·.IdKeyed) =
      (es.map opRow).filter (·.IdKeyed) ++ opRow e :: (es'.map opRow).filter (·.IdKeyed) := by
    have isKeyed : (opRow e).IdKeyed := by rw [OpOverlay.IdKeyed, rowId]; exact nonzero
    simp [isKeyed]
  have found := merged_get id split
  have first : ¬∃ other ∈ (es.map opRow).filter (·.IdKeyed), SameName id other (opRow e) := by
    rintro ⟨other, listed, same⟩
    obtain ⟨n, m, name', name'', equal⟩ := sameName_iff.mp same
    rw [named] at name''
    obtain rfl := Option.some.inj name''
    exact (earlier other listed).2 (name'.trans (congrArg some equal))
  have carried : (fun cur => decide (SameName id (opRow e) cur)) =
      fun cur => decide (cur.name = some name) := by
    funext cur
    exact decide_eq_decide.mpr (by simp [SameName, named, eq_comm])
  have row : mergedRow id ((es.map opRow).filter (·.IdKeyed)) (opRow e)
      (((es ++ e :: es').map opRow).filter fun row => ¬row.IdKeyed) =
      (match carriedFor (es ++ e :: es') name with
        | none => opRow e
        | some cur => (opRow e).describedBy cur) := by
    rw [mergedRow, if_neg first, carried, carriedFor, ← namedRows]
    cases ((((es ++ e :: es').map opRow).filter fun row => ¬row.IdKeyed).filter
      fun row => row.name = some name).getLast? <;> rfl
  rw [row] at found
  obtain ⟨bound, at_place⟩ := List.getElem?_eq_some_iff.mp found
  refine List.find?_eq_some_iff_getElem.mpr ⟨?_, _, bound, at_place, ?_⟩
  · split <;> simp [OpOverlay.describedBy, rowId]
  · intro j before
    have keys := congrArg (·[j]?) (merged_keys id ((es ++ e :: es').map opRow))
    simp only [split, List.getElem?_map, List.getElem?_append_left before] at keys
    rw [List.getElem?_eq_getElem (before.trans bound), List.getElem?_eq_getElem before] at keys
    simp only [Option.map_some, Option.some.injEq, Prod.mk.injEq] at keys
    have differs := (earlier _ (List.getElem_mem before)).1
    rw [← keys.1] at differs
    simpa using differs

/-- No merged row has the id 0. -/
theorem find_merged_zero (rows : List (OpOverlay CStr)) :
    (merged id rows).find? (fun row => row.cmdId == 0) = none := by
  refine List.find?_eq_none.mpr fun row member => ?_
  have listed : (row.cmdId, row.name) ∈ (rows.filter (·.IdKeyed)).map
      fun row => (row.cmdId, row.name) :=
    merged_keys id rows ▸ List.mem_map_of_mem member
  obtain ⟨other, member', equal⟩ := List.mem_map.mp listed
  have isKeyed := (List.mem_filter.mp member').2
  have same : other.cmdId = row.cmdId := (Prod.mk.inj equal).1
  simpa [OpOverlay.IdKeyed, same] using isKeyed

/-! ## The nodes -/

/-- A node has a name, and the descriptions of an entry when there is one. -/
def Described (op : Operation) (name : CStr) (curated : Option Entry) : Prop :=
  opGetName op = name ∧ ∀ c, curated = some c →
    op.overlayShort = (opRow c).shortDesc ∧ op.overlayLong = (opRow c).longDesc

variable {base : CStr} {files : CStr → OverlayFile} {f : Family}

/-- The node for an id other than 0. -/
theorem operationNode_nonzero (loaded : overlayLoad base files f.name = .ok f.overlay)
    (distinct : DistinctIds (familyEntries base files f.name)) {e : Entry}
    (member : e ∈ familyEntries base files f.name) {info : OpInfo}
    (keyed : parseUint32 e.key = some info.id) (nonzero : info.id ≠ 0) {name : CStr}
    (named : (opRow e).name = some name) (nonempty : name ≠ []) :
    let taken := (carriedFor (familyEntries base files f.name) name).getD (opRow e)
    opGetName (operationNode f.overlay info) = name ∧
      (operationNode f.overlay info).overlayShort = taken.shortDesc ∧
      (operationNode f.overlay info).overlayLong = taken.longDesc := by
  have found := (findOp_overlayLoad loaded info.id).trans
    (find_merged distinct member keyed nonzero named)
  cases carried : carriedFor (familyEntries base files f.name) name with
  | none =>
      simp only [carried] at found
      simp [opGetName, operationNode, found, named, suppliedOr, nonempty]
  | some cur =>
      simp only [carried] at found
      simp [opGetName, operationNode, found, named, suppliedOr, nonempty, OpOverlay.describedBy]

/-- The node for the id 0 has nothing from the overlay. -/
theorem operationNode_zero (loaded : overlayLoad base files f.name = .ok f.overlay)
    (info : OpInfo) (zero : info.id = 0) :
    operationNode f.overlay info = ⟨0, info.flags, none, none, none⟩ := by
  have found := (findOp_overlayLoad loaded 0).trans (find_merged_zero _)
  simp [operationNode, zero, found]

/-- **The nodes for an id carry its name and the descriptions of the curated entry for
the name exactly when the id is not 0** and the entries for the name go by their keys, or
the name happens to be the synthetic one and there are no descriptions for it. -/
theorem operationNode_iff (loaded : overlayLoad base files f.name = .ok f.overlay)
    (distinct : DistinctIds (familyEntries base files f.name)) {e : Entry}
    (member : e ∈ familyEntries base files f.name) {k : UInt32}
    (keyed : parseUint32 e.key = some k) {name : CStr} (named : (opRow e).name = some name)
    (nonempty : name ≠ []) (listed : ∃ info ∈ f.ops, info.id = k) :
    (∀ op, .operation op ∈ famPopulateChildren f → op.cmdId = k →
        Described op name (curatedFor (familyEntries base files f.name) name)) ↔
      k ≠ 0 ∧ GoesByKey (familyEntries base files f.name) e name ∨
        k = 0 ∧ name = lit "cmd-0" ∧ ∀ c,
          curatedFor (familyEntries base files f.name) name = some c →
            (opRow c).shortDesc = none ∧ (opRow c).longDesc = none := by
  have synthetic : lit "cmd-" ++ decimal (0 : UInt32).toNat = lit "cmd-0" := by decide
  constructor
  · intro described
    obtain ⟨info, member', rfl⟩ := listed
    obtain ⟨getName, descriptions⟩ := described (operationNode f.overlay info)
      (operation_mem_famPopulateChildren.mpr ⟨info, member', rfl⟩) rfl
    by_cases zero : info.id = 0
    · rw [operationNode_zero loaded _ zero] at getName descriptions
      refine .inr ⟨zero, ?_, ?_⟩
      · rw [← getName, opGetName, suppliedOr, synthetic]
      · intro c found
        exact ⟨(descriptions c found).1.symm, (descriptions c found).2.symm⟩
    · obtain ⟨_, short, long⟩ := operationNode_nonzero loaded distinct member keyed zero named
        nonempty
      rw [short, long] at descriptions
      exact .inl ⟨zero, descriptions⟩
  · intro condition op child cmdId
    obtain ⟨info, _, rfl⟩ := operation_mem_famPopulateChildren.mp child
    have sameId : info.id = k := cmdId
    subst sameId
    rcases condition with ⟨nonzero, byKey⟩ | ⟨zero, fallback, absent⟩
    · obtain ⟨getName, short, long⟩ := operationNode_nonzero loaded distinct member keyed nonzero
        named nonempty
      refine ⟨getName, ?_⟩
      rw [short, long]
      exact byKey
    · rw [operationNode_zero loaded _ zero]
      refine ⟨?_, ?_⟩
      · rw [fallback, opGetName, suppliedOr, synthetic]
      · intro c found
        exact ⟨(absent c found).1.symm, (absent c found).2.symm⟩

/-! ## An id 0 -/

/-- The generated file of a family with two operations, and a curated one that describes the
second of them. -/
def macsecFiles (path : CStr) : OverlayFile :=
  if path = generatedPath [] (lit "macsec") then
    .events [.streamStart, .documentStart, .mappingStart,
      .scalar (lit "family"), .scalar (lit "macsec"),
      .scalar (lit "operations"), .mappingStart,
      .scalar (lit "0"), .mappingStart, .scalar (lit "name"), .scalar (lit "GET_TXSC"), .mappingEnd,
      .scalar (lit "1"), .mappingStart, .scalar (lit "name"), .scalar (lit "ADD_RXSC"), .mappingEnd,
      .mappingEnd, .mappingEnd, .documentEnd, .streamEnd]
  else if path = curatedPath [] (lit "macsec") then
    .events [.streamStart, .documentStart, .mappingStart,
      .scalar (lit "operations"), .mappingStart,
      .scalar (lit "ADD_RXSC"), .mappingStart, .scalar (lit "short"), .scalar (lit "add a channel"),
      .mappingEnd, .mappingEnd, .mappingEnd, .documentEnd, .streamEnd]
  else .absent

/-- The entry that describes the second operation. -/
def macsecCurated : Entry := ⟨lit "ADD_RXSC", [(lit "short", lit "add a channel")]⟩

/-- The entries of both files. -/
def macsecEntries : List Entry :=
  [⟨lit "0", [(lit "name", lit "GET_TXSC")]⟩, ⟨lit "1", [(lit "name", lit "ADD_RXSC")]⟩,
    macsecCurated]

/-- What the files of the family carry, and that they are loaded. -/
theorem macsec_entries : familyEntries [] macsecFiles (lit "macsec") = macsecEntries := by
  decide +kernel

theorem macsec_distinct : DistinctIds macsecEntries := ⟨by decide +kernel, by decide +kernel⟩

theorem macsec_loaded : ∃ overlay, overlayLoad [] macsecFiles (lit "macsec") = .ok overlay := by
  have succeeds : (overlayLoad [] macsecFiles (lit "macsec")).isOk = true := by decide +kernel
  cases result : overlayLoad [] macsecFiles (lit "macsec") with
  | error e => rw [result] at succeeds; cases succeeds
  | ok overlay => exact ⟨overlay, rfl⟩

/-- The family as the kernel reports it, with its overlay. -/
def macsec (overlay : Option FamilyOverlay) : Family :=
  ⟨lit "macsec", 36, 1, 0, 0, [⟨0, 0xe⟩, ⟨1, 0xb⟩], [], overlay⟩

/-- The operation 0 of the family is not named after its entry. -/
theorem macsec_get_txsc_unnamed :
    ¬ ∀ (base : CStr) (files : CStr → OverlayFile) (f : Family),
      overlayLoad base files f.name = .ok f.overlay →
      DistinctIds (familyEntries base files f.name) →
      ∀ e ∈ familyEntries base files f.name, ∀ k name, parseUint32 e.key = some k →
        (opRow e).name = some name → name ≠ [] → (∃ info ∈ f.ops, info.id = k) →
        ∀ op, .operation op ∈ famPopulateChildren f → op.cmdId = k →
          Described op name (curatedFor (familyEntries base files f.name) name) := by
  intro always
  obtain ⟨overlay, loaded⟩ := macsec_loaded
  have named := always [] macsecFiles (macsec overlay) loaded
    (by rw [show (macsec overlay).name = lit "macsec" from rfl, macsec_entries]; exact macsec_distinct)
    ⟨lit "0", [(lit "name", lit "GET_TXSC")]⟩
    (by rw [show (macsec overlay).name = lit "macsec" from rfl, macsec_entries]; simp [macsecEntries])
    0 (lit "GET_TXSC") (by decide +kernel) (by decide +kernel) (by decide) ⟨⟨0, 0xe⟩, by simp [macsec]⟩
    (operationNode overlay ⟨0, 0xe⟩)
    (operation_mem_famPopulateChildren.mpr ⟨⟨0, 0xe⟩, by simp [macsec], rfl⟩) rfl
  have node := operationNode_zero (f := macsec overlay) loaded ⟨0, 0xe⟩ rfl
  have getName := named.1
  rw [show overlay = (macsec overlay).overlay from rfl, node] at getName
  revert getName
  decide

/-- The operation 1 of the family is named after its entry, and described as the curated file
describes this name. -/
theorem macsec_add_rxsc_named : ∃ overlay,
    overlayLoad [] macsecFiles (lit "macsec") = .ok overlay ∧
      ∀ op, .operation op ∈ famPopulateChildren (macsec overlay) → op.cmdId = 1 →
        opGetName op = lit "ADD_RXSC" ∧ op.overlayShort = some (lit "add a channel") ∧
          op.overlayLong = none := by
  obtain ⟨overlay, loaded⟩ := macsec_loaded
  have entries : familyEntries [] macsecFiles (macsec overlay).name = macsecEntries := macsec_entries
  have curated : curatedFor (familyEntries [] macsecFiles (macsec overlay).name) (lit "ADD_RXSC") =
      some macsecCurated := by
    rw [entries]
    decide +kernel
  have named : (opRow ⟨lit "1", [(lit "name", lit "ADD_RXSC")]⟩).name = some (lit "ADD_RXSC") := by
    decide +kernel
  refine ⟨overlay, loaded, fun op child isOne => ?_⟩
  obtain ⟨name, descriptions⟩ := (operationNode_iff (f := macsec overlay) (k := 1) loaded
    (by rw [entries]; exact macsec_distinct)
    (e := ⟨lit "1", [(lit "name", lit "ADD_RXSC")]⟩) (by rw [entries]; simp [macsecEntries])
    (by decide +kernel) named (by decide) ⟨⟨1, 0xb⟩, by simp [macsec], rfl⟩).mpr
    (.inl ⟨by decide, goesByKey_of_unnamed (by rw [entries]; decide +kernel) _ _⟩) op child isOne
  obtain ⟨short, long⟩ := descriptions macsecCurated curated
  exact ⟨name, short, long⟩

end Ykern.Genl
