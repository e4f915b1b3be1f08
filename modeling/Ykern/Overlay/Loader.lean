import Ykern.Overlay.Document
import Ykern.Overlay.Records

/-!
# The overlay loader

A recursive-descent walk over the event stream that appends what it reads to the
arrays of an overlay. Each array is grown by a capacity the loader keeps: three
of them live in the loader and are set up for each file by `loadOneFile`, the
fourth is local to the reading of one set.

The loader also keeps, for the statements about it, the list of its accesses to
the four arrays. Allocation succeeds. An error carries the messages of its chain
of causes, the outermost first.

All reading routines run the same loop over the keys of a mapping (`readLoop`).
They differ in what they do with a key, in the state they build and in the texts
of their errors.
-/

set_option autoImplicit false

namespace Ykern.Overlay

/-- The messages of an error and of its causes. -/
abbrev Error := List String

/-- What a reading routine leaves: its result, the state and the events to come. -/
structure Reading (σ : Type) where
  result : Except Error Unit
  state : σ
  rest : List YamlEvent

/-- Return an error of a callee as the cause of a new one. -/
def Reading.wrap {σ : Type} (text : String) (r : Reading σ) : Reading σ :=
  match r.result with
  | .error e => { r with result := .error (text :: e) }
  | .ok _ => r

/-- `next_event` followed by a check of the type. -/
def expectEventType (expected : YamlEvent) : List YamlEvent → Except Error Unit × List YamlEvent
  | [] => (.error ["yaml: read event", "yaml: parse error"], [])
  | ev :: rest =>
      if ev = expected then (.ok (), rest) else (.error ["yaml: unexpected event type"], rest)

/-- Consume one event of a type, then go on. -/
def expectThen {σ : Type} (expected : YamlEvent) (text : String) (s : σ) (evs : List YamlEvent)
    (next : List YamlEvent → Reading σ) : Reading σ :=
  match expectEventType expected evs with
  | (.error e, rest) => ⟨.error (text :: e), s, rest⟩
  | (.ok _, rest) => next rest

@[simp] theorem wrap_rest {σ : Type} (text : String) (r : Reading σ) :
    (r.wrap text).rest = r.rest := by
  unfold Reading.wrap
  split <;> rfl

@[simp] theorem wrap_state {σ : Type} (text : String) (r : Reading σ) :
    (r.wrap text).state = r.state := by
  unfold Reading.wrap
  split <;> rfl

theorem expectThen_shorter {σ : Type} {expected : YamlEvent} {text : String} {s : σ}
    {evs : List YamlEvent} {next : List YamlEvent → Reading σ}
    (shorter : ∀ rest, (next rest).rest.length ≤ rest.length) :
    (expectThen expected text s evs next).rest.length ≤ evs.length := by
  unfold expectThen expectEventType
  cases evs with
  | nil => exact Nat.zero_le _
  | cons ev rest =>
      by_cases same : ev = expected
      · simp only [if_pos same]
        exact (shorter rest).trans (Nat.le_succ _)
      · simp only [if_neg same]
        exact Nat.le_succ _

/-- What a routine does with a key that it has read. -/
structure KeyReader (σ : Type) where
  read : CStr → σ → List YamlEvent → Reading σ
  shorter : ∀ key s evs, (read key s evs).rest.length ≤ evs.length

/-- The loop over the keys of a mapping. Some routines pass an error of
`next_event` on as the cause of an error of their own. -/
def readLoop {σ : Type} (next : Option String) (badKey : String) (key : KeyReader σ) (s : σ)
    (evs : List YamlEvent) : Reading σ :=
  match evs with
  | [] => ⟨.error (next.toList ++ ["yaml: parse error"]), s, []⟩
  | .mappingEnd :: rest => ⟨.ok (), s, rest⟩
  | .scalar k :: rest =>
      let entry := key.read (takeScalar k) s rest
      match entry.result with
      | .error _ => entry
      | .ok _ => readLoop next badKey key entry.state entry.rest
  | _ :: rest => ⟨.error [badKey], s, rest⟩
termination_by evs.length
decreasing_by
  have := key.shorter (takeScalar k) s rest
  simp only [List.length_cons]
  omega

theorem readLoop_shorter {σ : Type} (next : Option String) (badKey : String) (key : KeyReader σ)
    (s : σ) (evs : List YamlEvent) :
    (readLoop next badKey key s evs).rest.length ≤ evs.length := by
  induction s, evs using readLoop.induct key with
  | case1 s => rw [readLoop]
  | case2 s rest => rw [readLoop]; exact Nat.le_succ _
  | case3 s k rest entry e failed =>
      have : entry.rest.length ≤ rest.length := key.shorter _ _ _
      rw [readLoop]
      simp only [show (key.read (takeScalar k) s rest).result = .error e from failed]
      exact this.trans (Nat.le_succ _)
  | case4 s k rest entry u read ih =>
      have : entry.rest.length ≤ rest.length := key.shorter _ _ _
      rw [readLoop]
      simp only [show (key.read (takeScalar k) s rest).result = .ok u from read]
      exact ih.trans (this.trans (Nat.le_succ _))
  | case5 s ev rest notEnd notScalar =>
      rw [readLoop.eq_4 _ _ _ _ _ _ notEnd notScalar]
      exact Nat.le_succ _

/-- A key whose value is a scalar that is assigned to a field. -/
def fieldReader {κ : Type} (badValue : String) (assign : κ → CStr → CStr → κ) : KeyReader κ where
  read key acc
    | .scalar v :: rest => ⟨.ok (), assign acc key (takeScalar v), rest⟩
    | evs => ⟨.error [badValue], acc, evs.tail⟩
  shorter key acc evs := by
    split
    · exact Nat.le_succ _
    · rw [List.length_tail]
      exact Nat.sub_le _ _

/-! ## The loader -/

/-- The arrays the loader grows; a set's attributes are named by its index. -/
inductive ArrayName where
  | ops
  | mcast
  | attrSets
  | attrs (set : Nat)
  deriving DecidableEq

/-- Accesses to arrays, in the order they were performed. -/
abbrev ArrayLog := List (ArrayName × ArrayStep)

/-- `overlay_loader`: the overlay under construction and the capacities, with the
accesses performed. The parser is the list of events still to come. -/
structure OverlayLoader where
  out : FamilyOverlay
  opCapacity : Nat
  mcastCapacity : Nat
  attrSetCapacity : Nat
  log : ArrayLog

/-! ## Operations -/

/-- The tail of `read_op_inner`: append a row. -/
def OverlayLoader.appendOp (l : OverlayLoader) (row : OpOverlay CStr) : OverlayLoader :=
  let pushed := l.out.ops.push 8 l.opCapacity row
  { l with
    out := { l.out with ops := pushed.array }
    opCapacity := pushed.capacity
    log := l.log ++ pushed.steps.map fun step => (.ops, step) }

/-- The field assignments of `read_op_inner`. Unknown fields are dropped. -/
def assignOp (row : OpOverlay CStr) (key val : CStr) : OpOverlay CStr :=
  if key = lit "name" then { row with name := some val }
  else if key = lit "short" then { row with shortDesc := some val }
  else if key = lit "long" then { row with longDesc := some val }
  else row

/-- The loop of `read_op_inner`. -/
def readOpFields (cmdId : UInt32) (name : Option CStr) (evs : List YamlEvent) :
    Reading (OpOverlay CStr) :=
  readLoop none "yaml: expected scalar key in op map"
    (fieldReader "yaml: expected scalar value in op map" assignOp) ⟨cmdId, name, none, none⟩ evs

/-- `read_op_inner`. -/
def readOpInner (l : OverlayLoader) (cmdId : UInt32) (name : Option CStr)
    (evs : List YamlEvent) : Reading OverlayLoader :=
  let inner := readOpFields cmdId name evs
  match inner.result with
  | .error e => ⟨.error e, l, inner.rest⟩
  | .ok _ => ⟨.ok (), l.appendOp inner.state, inner.rest⟩

/-- The key of an operations entry: an id keys it by number, anything else by
name. The id 0 stands for a row keyed by name. -/
def opKey (key : CStr) : UInt32 × Option CStr :=
  match parseUint32 key with
  | some cmdId => (cmdId, none)
  | none => (0, some key)

theorem readOpInner_shorter (l : OverlayLoader) (cmdId : UInt32) (name : Option CStr)
    (evs : List YamlEvent) : (readOpInner l cmdId name evs).rest.length ≤ evs.length := by
  have shorter : (readOpFields cmdId name evs).rest.length ≤ evs.length :=
    readLoop_shorter _ _ _ _ _
  unfold readOpInner
  dsimp only
  split <;> exact shorter

/-- The body of the loop of `read_operations`. -/
def opReader : KeyReader OverlayLoader where
  read key l evs :=
    expectThen .mappingStart "yaml: op value expected mapping" l evs fun rest =>
      (readOpInner l (opKey key).1 (opKey key).2 rest).wrap "yaml: read_op_inner failed"
  shorter key l evs := expectThen_shorter fun rest => by
    rw [wrap_rest]
    exact readOpInner_shorter _ _ _ _

/-- `read_operations`. -/
def readOperations (l : OverlayLoader) (evs : List YamlEvent) : Reading OverlayLoader :=
  expectThen .mappingStart "yaml: operations expected mapping" l evs
    (readLoop (some "yaml: operations next") "yaml: operations expected scalar key" opReader l)

/-! ## Multicast groups -/

/-- The tail of `read_mcast_entry`: append a row. -/
def OverlayLoader.appendMcast (l : OverlayLoader) (row : McastOverlay) : OverlayLoader :=
  let pushed := l.out.mcast.push 8 l.mcastCapacity row
  { l with
    out := { l.out with mcast := pushed.array }
    mcastCapacity := pushed.capacity
    log := l.log ++ pushed.steps.map fun step => (.mcast, step) }

/-- The field assignments of `read_mcast_entry`. -/
def assignMcast (row : McastOverlay) (key val : CStr) : McastOverlay :=
  if key = lit "short" then { row with shortDesc := some val }
  else if key = lit "long" then { row with longDesc := some val }
  else row

/-- The loop of `read_mcast_entry`. -/
def readMcastFields (name : CStr) (evs : List YamlEvent) : Reading McastOverlay :=
  readLoop none "yaml: expected scalar in mcast map"
    (fieldReader "yaml: expected scalar value in mcast map" assignMcast) ⟨some name, none, none⟩ evs

/-- `read_mcast_entry`. -/
def readMcastEntry (l : OverlayLoader) (name : CStr) (evs : List YamlEvent) :
    Reading OverlayLoader :=
  let inner := readMcastFields name evs
  match inner.result with
  | .error e => ⟨.error e, l, inner.rest⟩
  | .ok _ => ⟨.ok (), l.appendMcast inner.state, inner.rest⟩

theorem readMcastEntry_shorter (l : OverlayLoader) (name : CStr) (evs : List YamlEvent) :
    (readMcastEntry l name evs).rest.length ≤ evs.length := by
  have shorter : (readMcastFields name evs).rest.length ≤ evs.length := readLoop_shorter _ _ _ _ _
  unfold readMcastEntry
  dsimp only
  split <;> exact shorter

/-- The body of the loop of `read_mcast_groups`. -/
def mcastReader : KeyReader OverlayLoader where
  read name l evs :=
    expectThen .mappingStart "yaml: mcast value expected mapping" l evs fun rest =>
      (readMcastEntry l name rest).wrap "yaml: read_mcast_entry failed"
  shorter name l evs := expectThen_shorter fun rest => by
    rw [wrap_rest]
    exact readMcastEntry_shorter _ _ _

/-- `read_mcast_groups`. -/
def readMcastGroups (l : OverlayLoader) (evs : List YamlEvent) : Reading OverlayLoader :=
  expectThen .mappingStart "yaml: mcast_groups expected mapping" l evs
    (readLoop (some "yaml: mcast_groups next") "yaml: mcast_groups expected name key" mcastReader l)

/-! ## Attribute sets -/

/-- The field assignments of an attribute. -/
def assignAttr (attr : AttrOverlay) (key val : CStr) : AttrOverlay :=
  if key = lit "name" then { attr with name := some val }
  else if key = lit "type" then { attr with typeHint := some val }
  else attr

/-- A set while its attributes are read: the slot, the local capacity and the
accesses performed. -/
structure OpenSet where
  slot : AttrSetOverlay
  cap : Nat
  log : ArrayLog

/-- A set whose slot has just been taken. -/
def OpenSet.new (setName : CStr) : OpenSet := ⟨⟨setName, .empty⟩, 0, []⟩

/-- Append an attribute to the set of index `set`. -/
def OpenSet.appendAttr (set : Nat) (s : OpenSet) (attr : AttrOverlay) : OpenSet :=
  let pushed := s.slot.attrs.push 16 s.cap attr
  { slot := { s.slot with attrs := pushed.array }
    cap := pushed.capacity
    log := s.log ++ pushed.steps.map fun step => (.attrs set, step) }

/-- The inner loop of `read_attr_entries_into_set`. -/
def readAttrFields (attrId : UInt32) (evs : List YamlEvent) : Reading AttrOverlay :=
  readLoop none "yaml: attr inner expected scalar key"
    (fieldReader "yaml: attr inner expected scalar value" assignAttr) ⟨attrId, none, none⟩ evs

/-- The part of the outer loop of `read_attr_entries_into_set` after the id. -/
def readAttrInner (set : Nat) (s : OpenSet) (attrId : UInt32) (evs : List YamlEvent) :
    Reading OpenSet :=
  let inner := readAttrFields attrId evs
  match inner.result with
  | .error e => ⟨.error e, s, inner.rest⟩
  | .ok _ => ⟨.ok (), s.appendAttr set inner.state, inner.rest⟩

theorem readAttrInner_shorter (set : Nat) (s : OpenSet) (attrId : UInt32)
    (evs : List YamlEvent) : (readAttrInner set s attrId evs).rest.length ≤ evs.length := by
  have shorter : (readAttrFields attrId evs).rest.length ≤ evs.length := readLoop_shorter _ _ _ _ _
  unfold readAttrInner
  dsimp only
  split <;> exact shorter

/-- The body of the outer loop of `read_attr_entries_into_set`. -/
def attrReader (set : Nat) : KeyReader OpenSet where
  read key s evs :=
    match parseUint32 key with
    | none => ⟨.error ["yaml: attr key not an integer"], s, evs⟩
    | some attrId =>
        expectThen .mappingStart "yaml: attr value expected mapping" s evs
          (readAttrInner set s attrId)
  shorter key s evs := by
    split
    · exact le_refl _
    · exact expectThen_shorter fun rest => readAttrInner_shorter _ _ _ _

/-- `read_attr_entries_into_set`. -/
def readAttrEntriesIntoSet (set : Nat) (s : OpenSet) (evs : List YamlEvent) : Reading OpenSet :=
  readLoop (some "yaml: attr set next") "yaml: attr set expects int key" (attrReader set) s evs

/-- Take the next slot of the attribute sets for a set of this name. -/
def OverlayLoader.openSet (l : OverlayLoader) (setName : CStr) : OverlayLoader :=
  let pushed := l.out.attrSets.push 16 l.attrSetCapacity ⟨setName, .empty⟩
  { l with
    out := { l.out with attrSets := pushed.array }
    attrSetCapacity := pushed.capacity
    log := l.log ++ pushed.steps.map fun step => (.attrSets, step) }

/-- Put a set that was read back into its slot. -/
def OverlayLoader.storeSet (l : OverlayLoader) (set : Nat) (s : OpenSet) : OverlayLoader :=
  { l with
    out := { l.out with
      attrSets := { l.out.attrSets with items := l.out.attrSets.items.set set s.slot } }
    log := l.log ++ s.log }

/-- The body of the loop of `read_attribute_sets` after the start of the value. -/
def readSet (l : OverlayLoader) (setName : CStr) (evs : List YamlEvent) : Reading OverlayLoader :=
  let inner := readAttrEntriesIntoSet l.out.attrSets.count (.new setName) evs
  ⟨inner.result, (l.openSet setName).storeSet l.out.attrSets.count inner.state, inner.rest⟩

theorem readSet_shorter (l : OverlayLoader) (setName : CStr) (evs : List YamlEvent) :
    (readSet l setName evs).rest.length ≤ evs.length := by
  unfold readSet readAttrEntriesIntoSet
  exact readLoop_shorter _ _ _ _ _

/-- The body of the loop of `read_attribute_sets`. -/
def setReader : KeyReader OverlayLoader where
  read setName l evs :=
    expectThen .mappingStart "yaml: set value expected mapping" l evs fun rest =>
      (readSet l setName rest).wrap "yaml: attr set entries failed"
  shorter setName l evs := expectThen_shorter fun rest => by
    rw [wrap_rest]
    exact readSet_shorter _ _ _

/-- `read_attribute_sets`. -/
def readAttributeSets (l : OverlayLoader) (evs : List YamlEvent) : Reading OverlayLoader :=
  expectThen .mappingStart "yaml: attribute_sets expected mapping" l evs
    (readLoop (some "yaml: attribute_sets next") "yaml: attribute_sets expects name key"
      setReader l)

/-! ## The top-level mapping -/

/-- The scalars of the top-level mapping. Unknown keys are tolerated. -/
def OverlayLoader.assignTop (l : OverlayLoader) (key val : CStr) : OverlayLoader :=
  if key = lit "family" then { l with out := { l.out with familyName := some val } }
  else if key = lit "short" then { l with out := { l.out with shortDesc := some val } }
  else if key = lit "long" then { l with out := { l.out with longDesc := some val } }
  else l

/-- The body of the loop of `read_top`. -/
def topReader : KeyReader OverlayLoader where
  read key l evs :=
    if key = lit "operations" then (readOperations l evs).wrap "yaml: operations failed"
    else if key = lit "mcast_groups" then (readMcastGroups l evs).wrap "yaml: mcast_groups failed"
    else if key = lit "attribute_sets" then
      (readAttributeSets l evs).wrap "yaml: attribute_sets failed"
    else
      (fieldReader "yaml: top map expected scalar value" OverlayLoader.assignTop).read key l evs
  shorter key l evs := by
    split
    · rw [wrap_rest]
      exact expectThen_shorter fun rest => readLoop_shorter _ _ _ _ _
    split
    · rw [wrap_rest]
      exact expectThen_shorter fun rest => readLoop_shorter _ _ _ _ _
    split
    · rw [wrap_rest]
      exact expectThen_shorter fun rest => readLoop_shorter _ _ _ _ _
    · exact KeyReader.shorter _ _ _ _

/-- `read_top`. -/
def readTop (l : OverlayLoader) (evs : List YamlEvent) : Reading OverlayLoader :=
  expectThen .streamStart "yaml: stream start" l evs fun evs =>
    expectThen .documentStart "yaml: document start" l evs fun evs =>
      expectThen .mappingStart "yaml: top mapping" l evs fun evs =>
        readLoop (some "yaml: top map next") "yaml: top map expects scalar key" topReader l evs

/-! ## Files -/

/-- An overlay file: not there, not to be opened, or with the events in it. -/
inductive OverlayFile where
  | absent
  | unreadable
  | events (evs : List YamlEvent)
  deriving DecidableEq

namespace OverlayFile

/-- The sections of the document in a file. -/
def sections : OverlayFile → List Section
  | .events evs => (readDocument evs).1
  | _ => []

end OverlayFile

/-- What loading a file leaves: whether it was there, the overlay, and the
accesses performed. -/
structure Loaded where
  loadedAny : Except Error Bool
  out : FamilyOverlay
  log : ArrayLog

/-- The loader `load_one_file` sets up, to resume at the sizes of the arrays. It
is zeroed before, and the capacity of the attribute sets stays so. -/
def OverlayLoader.resume (out : FamilyOverlay) : OverlayLoader :=
  { out := out
    opCapacity := out.ops.count
    mcastCapacity := out.mcast.count
    attrSetCapacity := 0
    log := [] }

/-- `load_one_file`. -/
def loadOneFile (out : FamilyOverlay) : OverlayFile → Loaded
  | .absent => ⟨.ok false, out, []⟩
  | .unreadable => ⟨.error ["overlay_load: fopen failed"], out, []⟩
  | .events evs =>
      let read := readTop (.resume out) evs
      match read.result with
      | .error e => ⟨.error ("overlay_load: yaml parse failed" :: e), read.state.out, read.state.log⟩
      | .ok _ => ⟨.ok true, read.state.out, read.state.log⟩

/-- Load files one after the other into the same overlay. -/
def loadFiles (out : FamilyOverlay) : List OverlayFile → FamilyOverlay × ArrayLog
  | [] => (out, [])
  | file :: files =>
      let first := loadOneFile out file
      let others := loadFiles first.out files
      (others.1, first.log ++ others.2)

end Ykern.Overlay
