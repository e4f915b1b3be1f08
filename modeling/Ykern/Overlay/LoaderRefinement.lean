import Ykern.Overlay.Loader

/-!
# The loader follows the document

Whatever the stream, the loader builds what folding over the document of the
stream builds, and it succeeds exactly when the document is complete
(`readTop_reads`). The argument is made once, for the loop that all reading
routines share: when the body of the loop follows the reader of a value, the loop
follows the reader of a mapping of such values (`readLoop_follows`).

For a file the state is then a fold over its sections (`loadOneFile_state`), and the
events are gone from every later statement.
-/

set_option autoImplicit false

namespace Ykern.Overlay

variable {σ α β : Type}

/-- A routine left this state, and succeeded exactly when there is a rest. -/
structure Reading.Reads (r : Reading σ) (s : σ) (rest : Option (List YamlEvent)) : Prop where
  state_eq : r.state = s
  ended : ∀ rest', rest = some rest' → r.result = .ok () ∧ r.rest = rest'
  failed : rest = none → ∃ e, r.result = .error e

namespace Reading.Reads

theorem error {e : Error} {s : σ} {rest : List YamlEvent} :
    (⟨.error e, s, rest⟩ : Reading σ).Reads s none :=
  ⟨rfl, fun _ impossible => (by cases impossible), fun _ => ⟨e, rfl⟩⟩

theorem ok {s : σ} {rest : List YamlEvent} :
    (⟨.ok (), s, rest⟩ : Reading σ).Reads s (some rest) :=
  ⟨rfl, fun _ same => ⟨rfl, Option.some.inj same⟩, fun impossible => (by cases impossible)⟩

theorem wrap {text : String} {r : Reading σ} {s : σ} {rest : Option (List YamlEvent)}
    (reads : r.Reads s rest) : (r.wrap text).Reads s rest := by
  obtain ⟨state, ended, failed⟩ := reads
  unfold Reading.wrap
  split
  · next e result =>
      refine ⟨state, ?_, fun _ => ⟨_, rfl⟩⟩
      intro rest' complete
      rw [(ended rest' complete).1] at result
      cases result
  · exact ⟨state, ended, failed⟩

theorem isOk_iff {r : Reading σ} {s : σ} {rest : Option (List YamlEvent)}
    (reads : r.Reads s rest) : r.result = .ok () ↔ rest.isSome = true := by
  cases rest with
  | none =>
      obtain ⟨e, result⟩ := reads.failed rfl
      simp [result]
  | some rest' => simp [(reads.ended rest' rfl).1]

end Reading.Reads

/-- The body of a loop does to the state what there is of a value tells. -/
def KeyReader.Follows (key : KeyReader σ) (value : ValueReader α) (apply : σ → α → σ) : Prop :=
  ∀ k s evs, (key.read k s evs).Reads ((value.read k evs).1.foldl apply s) (value.read k evs).2

/-- **A loop whose body follows a value follows the mapping of such values.** -/
theorem readLoop_follows {key : KeyReader σ} {value : ValueReader α} {apply : σ → α → σ}
    (follows : key.Follows value apply) (next : Option String) (badKey : String) (s : σ)
    (evs : List YamlEvent) :
    (readLoop next badKey key s evs).Reads ((readMapping value evs).1.foldl apply s)
      (readMapping value evs).2 := by
  induction s, evs using readLoop.induct key with
  | case1 s =>
      rw [readLoop, readMapping.eq_3 _ _ (by simp) (by simp)]
      exact .error
  | case2 s rest =>
      rw [readLoop, readMapping]
      exact .ok
  | case3 s k rest entry e failed =>
      obtain ⟨state, ended, failed'⟩ := follows (takeScalar k) s rest
      have result : (key.read (takeScalar k) s rest).result = .error e := failed
      have incomplete : (value.read (takeScalar k) rest).2 = none := by
        cases complete : (value.read (takeScalar k) rest).2 with
        | none => rfl
        | some rest' => rw [(ended rest' complete).1] at result; cases result
      rw [readLoop, readMapping]
      simp only [result]
      split
      · exact ⟨state, fun _ impossible => (by cases impossible), fun _ => ⟨e, result⟩⟩
      · next complete => rw [incomplete] at complete; cases complete
  | case4 s k rest entry u read ih =>
      obtain ⟨state, ended, failed⟩ := follows (takeScalar k) s rest
      have result : (key.read (takeScalar k) s rest).result = .ok u := read
      rw [readLoop, readMapping]
      simp only [result]
      split
      · next incomplete =>
          obtain ⟨e, error⟩ := failed incomplete
          rw [result] at error
          cases error
      · next rest' complete =>
          rw [List.foldl_append, ← state, ← (ended rest' complete).2]
          exact ih
  | case5 s ev rest notEnd notScalar =>
      rw [readLoop.eq_4 _ _ _ _ _ _ notEnd notScalar, readMapping.eq_3 _ _ (by
        rintro rest' equal; exact notEnd (List.cons.inj equal).1) (by
        rintro k rest' equal; exact notScalar k (List.cons.inj equal).1)]
      exact .error

theorem fieldReader_follows (badValue : String) (assign : σ → CStr → CStr → σ) :
    (fieldReader badValue assign).Follows scalarValue fun acc f => assign acc f.1 f.2 := by
  intro k s evs
  cases evs with
  | nil => exact .error
  | cons ev rest =>
      cases ev with
      | scalar v => exact .ok
      | _ => exact .error

theorem expectThen_cons (expected : YamlEvent) (text : String) (s : σ) (rest : List YamlEvent)
    (next : List YamlEvent → Reading σ) :
    expectThen expected text s (expected :: rest) next = next rest := by
  simp [expectThen, expectEventType]

theorem expectThen_other {expected : YamlEvent} {text : String} {s : σ} {evs : List YamlEvent}
    {next : List YamlEvent → Reading σ} (other : ∀ rest, evs ≠ expected :: rest) :
    (expectThen expected text s evs next).Reads s none := by
  cases evs with
  | nil => exact .error
  | cons ev rest =>
      have differs : ev ≠ expected := fun same => other rest (by rw [same])
      simp only [expectThen, expectEventType, if_neg differs]
      exact .error

/-- Expecting a mapping follows the reader of a mapping. -/
theorem expectThen_reads {value : ValueReader α} {accepts : CStr → Bool}
    {complete incomplete : CStr → List α → List β} {apply : σ → β → σ} {text : String} {key : CStr}
    {s : σ} {next : List YamlEvent → Reading σ} (accepted : accepts key = true)
    (follows : ∀ rest, (next rest).Reads
      ((match (readMapping value rest).2 with
        | none => incomplete key (readMapping value rest).1
        | some _ => complete key (readMapping value rest).1).foldl apply s)
      (readMapping value rest).2) (evs : List YamlEvent) :
    (expectThen .mappingStart text s evs next).Reads
      (((value.mapping accepts complete incomplete).read key evs).1.foldl apply s)
      ((value.mapping accepts complete incomplete).read key evs).2 := by
  by_cases starts : ∃ rest, evs = .mappingStart :: rest
  · obtain ⟨rest, rfl⟩ := starts
    have followed := follows rest
    rw [expectThen_cons]
    simp only [ValueReader.mapping, if_pos accepted]
    split
    · next incomplete => simpa only [incomplete] using followed
    · next rest' complete => simpa only [complete] using followed
  · have nothing : (value.mapping accepts complete incomplete).read key evs = ([], none) := by
      simp only [ValueReader.mapping]
      split
      · next rest => exact absurd ⟨rest, rfl⟩ starts
      · rfl
    rw [nothing]
    exact expectThen_other (not_exists.mp starts)

/-! ## The rows of the document -/

/-- The operation row of an entry. -/
def opRow (e : Entry) : OpOverlay CStr :=
  e.fields.foldl (fun row f => assignOp row f.1 f.2) ⟨(opKey e.key).1, (opKey e.key).2, none, none⟩

/-- The multicast group of an entry. -/
def mcastRow (e : Entry) : McastOverlay :=
  e.fields.foldl (fun row f => assignMcast row f.1 f.2) ⟨some e.key, none, none⟩

/-- The attribute of an entry. -/
def attrRow (e : Entry) : AttrOverlay :=
  e.fields.foldl (fun attr f => assignAttr attr f.1 f.2)
    ⟨(parseUint32 e.key).getD 0, none, none⟩

/-- Append the attribute of an entry to a set. -/
def OpenSet.addAttr (set : Nat) (s : OpenSet) (e : Entry) : OpenSet := s.appendAttr set (attrRow e)

namespace OverlayLoader

/-- Append the operation of an entry. -/
def addOp (l : OverlayLoader) (e : Entry) : OverlayLoader := l.appendOp (opRow e)

/-- Append the multicast group of an entry. -/
def addMcast (l : OverlayLoader) (e : Entry) : OverlayLoader := l.appendMcast (mcastRow e)

/-- Append an attribute set. -/
def addSet (l : OverlayLoader) (set : CStr × List Entry) : OverlayLoader :=
  (l.openSet set.1).storeSet l.out.attrSets.count
    (set.2.foldl (OpenSet.addAttr l.out.attrSets.count) (.new set.1))

/-- Append the rows of a section. -/
def addSection (l : OverlayLoader) : Section → OverlayLoader
  | .operations entries => entries.foldl addOp l
  | .mcastGroups entries => entries.foldl addMcast l
  | .attributeSets sets => sets.foldl addSet l
  | .scalar key value => l.assignTop key value

end OverlayLoader

/-! ## The routines follow the document -/

theorem opReader_follows : opReader.Follows (entryValue fun _ => true) OverlayLoader.addOp := by
  intro k l evs
  refine expectThen_reads rfl (fun rest => .wrap ?_) evs
  have fields := readLoop_follows
    (fieldReader_follows "yaml: expected scalar value in op map" assignOp) none
    "yaml: expected scalar key in op map" ⟨(opKey k).1, (opKey k).2, none, none⟩ rest
  change (readOpFields (opKey k).1 (opKey k).2 rest).Reads _ _ at fields
  obtain ⟨state, ended, failed⟩ := fields
  unfold readOpInner
  cases complete : (readMapping scalarValue rest).2 with
  | none =>
      obtain ⟨e, result⟩ := failed complete
      simp only [result]
      exact .error
  | some rest' =>
      obtain ⟨result, same⟩ := ended rest' complete
      simp only [result, state, same]
      exact .ok

theorem mcastReader_follows :
    mcastReader.Follows (entryValue fun _ => true) OverlayLoader.addMcast := by
  intro k l evs
  refine expectThen_reads rfl (fun rest => .wrap ?_) evs
  have fields := readLoop_follows
    (fieldReader_follows "yaml: expected scalar value in mcast map" assignMcast) none
    "yaml: expected scalar in mcast map" ⟨some k, none, none⟩ rest
  change (readMcastFields k rest).Reads _ _ at fields
  obtain ⟨state, ended, failed⟩ := fields
  unfold readMcastEntry
  cases complete : (readMapping scalarValue rest).2 with
  | none =>
      obtain ⟨e, result⟩ := failed complete
      simp only [result]
      exact .error
  | some rest' =>
      obtain ⟨result, same⟩ := ended rest' complete
      simp only [result, state, same]
      exact .ok

theorem attrReader_follows (set : Nat) :
    (attrReader set).Follows (entryValue isAttrKey) (OpenSet.addAttr set) := by
  intro k s evs
  simp only [attrReader]
  cases number : parseUint32 k with
  | none =>
      have rejected : (entryValue isAttrKey).read k evs = ([], none) := by
        simp only [entryValue, ValueReader.mapping, isAttrKey, number]
        split <;> rfl
      rw [rejected]
      exact .error
  | some attrId =>
      refine expectThen_reads (by simp [isAttrKey, number]) (fun rest => ?_) evs
      have fields := readLoop_follows
        (fieldReader_follows "yaml: attr inner expected scalar value" assignAttr) none
        "yaml: attr inner expected scalar key" ⟨attrId, none, none⟩ rest
      change (readAttrFields attrId rest).Reads _ _ at fields
      obtain ⟨state, ended, failed⟩ := fields
      unfold readAttrInner
      cases complete : (readMapping scalarValue rest).2 with
      | none =>
          obtain ⟨e, result⟩ := failed complete
          simp only [result]
          exact .error
      | some rest' =>
          obtain ⟨result, same⟩ := ended rest' complete
          simp only [result, state, same, List.foldl_cons, List.foldl_nil, OpenSet.addAttr,
            attrRow, number, Option.getD_some]
          exact .ok

theorem setReader_follows : setReader.Follows setValue OverlayLoader.addSet := by
  intro k l evs
  refine expectThen_reads rfl (fun rest => .wrap ?_) evs
  have attrs := readLoop_follows (attrReader_follows l.out.attrSets.count)
    (some "yaml: attr set next") "yaml: attr set expects int key" (.new k) rest
  change (readAttrEntriesIntoSet l.out.attrSets.count (.new k) rest).Reads _ _ at attrs
  obtain ⟨state, ended, failed⟩ := attrs
  cases complete : (readMapping (entryValue isAttrKey) rest).2 with
  | none => exact ⟨by simp [readSet, state, OverlayLoader.addSet],
      fun _ impossible => (by cases impossible), fun _ => failed complete⟩
  | some rest' => exact ⟨by simp [readSet, state, OverlayLoader.addSet],
      fun last same => (ended last (complete.trans same)), fun impossible => (by cases impossible)⟩

theorem topReader_follows : topReader.Follows sectionValue OverlayLoader.addSection := by
  intro k l evs
  simp only [topReader, sectionValue]
  split
  · refine .wrap (expectThen_reads rfl (fun rest => ?_) evs)
    have entries := readLoop_follows opReader_follows (some "yaml: operations next")
      "yaml: operations expected scalar key" l rest
    split <;> exact entries
  split
  · refine .wrap (expectThen_reads rfl (fun rest => ?_) evs)
    have entries := readLoop_follows mcastReader_follows (some "yaml: mcast_groups next")
      "yaml: mcast_groups expected name key" l rest
    split <;> exact entries
  split
  · refine .wrap (expectThen_reads rfl (fun rest => ?_) evs)
    have sets := readLoop_follows setReader_follows (some "yaml: attribute_sets next")
      "yaml: attribute_sets expects name key" l rest
    split <;> exact sets
  · rw [List.foldl_map]
    exact fieldReader_follows "yaml: top map expected scalar value" OverlayLoader.assignTop k l evs

/-- **The loader follows the document of its stream.** -/
theorem readTop_reads (l : OverlayLoader) (evs : List YamlEvent) :
    (readTop l evs).Reads ((readDocument evs).1.foldl OverlayLoader.addSection l)
      (readDocument evs).2 := by
  unfold readTop readDocument
  split
  · next rest =>
      rw [expectThen_cons, expectThen_cons, expectThen_cons]
      exact readLoop_follows topReader_follows _ _ _ _
  · next notDocument =>
      -- One of the first three events is not the one expected.
      by_cases stream : ∃ rest, evs = .streamStart :: rest
      · obtain ⟨evs, rfl⟩ := stream
        rw [expectThen_cons]
        by_cases document : ∃ rest, evs = .documentStart :: rest
        · obtain ⟨evs, rfl⟩ := document
          rw [expectThen_cons]
          exact expectThen_other fun rest same => notDocument rest (by rw [same])
        · exact expectThen_other (not_exists.mp document)
      · exact expectThen_other (not_exists.mp stream)

/-! ## Files -/

namespace OverlayFile

/-- A file is complete when it is there and its top-level mapping ends. -/
def Complete : OverlayFile → Prop
  | .events evs => (readDocument evs).2.isSome = true
  | _ => False

instance : (file : OverlayFile) → Decidable file.Complete
  | .events _ => inferInstanceAs (Decidable (_ = true))
  | .absent | .unreadable => inferInstanceAs (Decidable False)

end OverlayFile

/-- Loading a file leaves what reading it does, whether that fails or not. -/
theorem loadOneFile_events (out : FamilyOverlay) (evs : List YamlEvent) :
    let read := readTop (.resume out) evs
    (loadOneFile out (.events evs)).out = read.state.out ∧
      (loadOneFile out (.events evs)).log = read.state.log := by
  simp only [loadOneFile]
  split <;> exact ⟨rfl, rfl⟩

theorem loadOneFile_state (out : FamilyOverlay) (file : OverlayFile) :
    let l := file.sections.foldl OverlayLoader.addSection (.resume out)
    (loadOneFile out file).out = l.out ∧ (loadOneFile out file).log = l.log := by
  cases file with
  | absent => exact ⟨rfl, rfl⟩
  | unreadable => exact ⟨rfl, rfl⟩
  | events evs =>
      have state := (readTop_reads (.resume out) evs).state_eq
      simp only [OverlayFile.sections, ← state]
      exact loadOneFile_events out evs

/-- A file is found and loaded when it is complete, and only then. -/
theorem loadOneFile_loadedAny (out : FamilyOverlay) (file : OverlayFile) :
    (loadOneFile out file).loadedAny = .ok true ↔ file.Complete := by
  cases file with
  | absent => simp [loadOneFile, OverlayFile.Complete]
  | unreadable => simp [loadOneFile, OverlayFile.Complete]
  | events evs =>
      have ok := (readTop_reads (.resume out) evs).isOk_iff
      simp only [loadOneFile, OverlayFile.Complete, ← ok]
      split
      · next failed => simp [failed]
      · next read => simp [read]

end Ykern.Overlay
