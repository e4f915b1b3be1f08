import Ykern.Foundation.Arena
import Ykern.Overlay.Load

/-!
# The overlay loader and its memory

The loader again, with the blocks it asks for and gives back: the events it gets from libyaml,
the strings it copies out of them, the arrays it grows, the chains of errors it builds, the
parser and the open file. Any request may be refused.

A string is known by its block and its bytes, an array by its block, its items and the slots it
was last reallocated to. A write to an array is to a block that is held, and below its slots: C
does not define any other.

Loops take the number of their iterations; a loop that reads events ends within one more than
there are.
-/

set_option autoImplicit false

namespace Ykern.Overlay.Memory

open Alloc Holder

/-! ## Errors -/

/-- `ykern_ycore_error`: the causes are in blocks of their own. -/
structure Failure where
  msg : String
  cause : List (Block × String)

instance : Holder Failure where
  blocks e := blocks (e.cause.map Prod.fst)

/-- The messages of an error and of its causes. -/
def Failure.messages (e : Failure) : Error := e.msg :: e.cause.map Prod.snd

/-- An error without a cause. -/
def Failure.plain (msg : String) : Failure := ⟨msg, []⟩

/-- `ykern_ycore_error_destroy`. -/
def errorDestroy (e : Failure) : Alloc Unit :=
  (e.cause.map Prod.fst).forM fun p => do
    touch p
    freeBlock (some p)

/-- `ykern_ycore_error_chain`. -/
def errorChain (prev : Failure) : Alloc (List (Block × String)) := do
  match ← malloc with
  | none => do
      errorDestroy prev
      pure []
  | some p => pure ((p, prev.msg) :: prev.cause)

/-- `YKERN_ERR` with a cause. -/
def causedBy (msg : String) (prev : Failure) : Alloc Failure := do
  let cause ← errorChain prev
  pure ⟨msg, cause⟩

/-! ## Strings and arrays -/

/-- A string: where it is, and its bytes. -/
structure Str where
  block : Block
  chars : CStr

instance : Holder Str where
  blocks s := {s.block}

/-- `free` of a string. -/
def freeStr (s : Option Str) : Alloc Unit := freeBlock (s.map (·.block))

/-- An array: its block, if there is one, its items, and the slots the block has. -/
structure Arr (α : Type) where
  block : Option Block
  items : List α
  slots : Nat

namespace Arr

variable {α : Type}

/-- The array before anything is written to it. -/
def empty : Arr α := ⟨none, [], 0⟩

/-- Write an item behind the last one. -/
def write (a : Arr α) (item : α) : Alloc (Arr α) := do
  deref a.block
  if a.items.length < a.slots then pure { a with items := a.items ++ [item] } else stuck

instance [Holder α] : Holder (Arr α) where
  blocks a := blocks a.block + blocks a.items

end Arr

/-- An array that is filled, with the number of slots its writer remembers. -/
structure Rows (α : Type) where
  array : Arr α
  capacity : Nat

namespace Rows

variable {α : Type}

instance [Holder α] : Holder (Rows α) where
  blocks rows := blocks rows.array

/-- Grow the array when it has as many items as the writer remembers slots. -/
def grow (initial : Nat) (rows : Rows α) : Alloc (Option (Rows α)) :=
  if rows.array.items.length = rows.capacity then do
    match ← realloc rows.array.block with
    | none => pure none
    | some grown =>
        let capacity := GrowArray.newCapacity initial rows.capacity
        pure (some ⟨⟨some grown, rows.array.items, capacity⟩, capacity⟩)
  else pure (some rows)

/-- Grow the array if need be, and write one item. -/
def append (initial : Nat) (rows : Rows α) (item : α) : Alloc (Option (Rows α)) := do
  match ← rows.grow initial with
  | none => pure none
  | some rows => do
      let array ← rows.array.write item
      pure (some { rows with array := array })

end Rows

/-! ## Events -/

/-- `yaml_event_t`: libyaml holds memory for an event until it is deleted. -/
structure Event where
  block : Block
  event : YamlEvent

/-- `next_event`. libyaml asks for memory too, and fails when it gets none. -/
def nextEvent : List YamlEvent → Alloc (Option Event × List YamlEvent)
  | [] => pure (none, [])
  | ev :: rest => do
      match ← malloc with
      | none => pure (none, [])
      | some b => pure (some ⟨b, ev⟩, rest)

/-- `yaml_event_delete`. -/
def eventDelete (ev : Event) : Alloc Unit := freeBlock (some ev.block)

/-- `take_scalar`, of an event with this text. -/
def takeScalar (ev : Event) (text : Bytes) : Alloc (Option Str) := do
  touch ev.block
  let p ← malloc
  pure (p.map fun b => ⟨b, Overlay.takeScalar text⟩)

/-- What a reading routine leaves: its result, the state and the events to come. -/
structure Reading (σ : Type) where
  result : Except Failure Unit
  state : σ
  rest : List YamlEvent

/-- A routine that fails with a message of its own. -/
def fail {σ : Type} (msg : String) (s : σ) (rest : List YamlEvent) : Alloc (Reading σ) :=
  pure ⟨.error (.plain msg), s, rest⟩

/-- Return an error of a callee as the cause of a new one. -/
def wrap {σ : Type} (msg : String) (r : Reading σ) : Alloc (Reading σ) :=
  match r.result with
  | .error e => do
      let e ← causedBy msg e
      pure { r with result := .error e }
  | .ok _ => pure r

/-- `expect_event_type`. -/
def expectEventType (expected : YamlEvent) (evs : List YamlEvent) :
    Alloc (Except Failure Event × List YamlEvent) := do
  let (ev, rest) ← nextEvent evs
  match ev with
  | none => do
      let e ← causedBy "yaml: read event" (.plain "yaml: parse error")
      pure (.error e, rest)
  | some ev =>
      if ev.event = expected then pure (.ok ev, rest)
      else do
        eventDelete ev
        pure (.error (.plain "yaml: unexpected event type"), rest)

/-- Consume one event of a type, then go on. What is held for the entry is released before the
error is wrapped. -/
def expectThen {σ : Type} (expected : YamlEvent) (msg : String) (release : Alloc Unit) (s : σ)
    (evs : List YamlEvent) (next : List YamlEvent → Alloc (Reading σ)) : Alloc (Reading σ) := do
  let (ev, rest) ← expectEventType expected evs
  match ev with
  | .error e => do
      release
      let e ← causedBy msg e
      pure ⟨.error e, s, rest⟩
  | .ok ev => do
      eventDelete ev
      next rest

/-! ## The keys of a mapping -/

/-- An error of `next_event`, which some routines pass on as the cause of one of their own. -/
def parseError (next : Option String) : Alloc Failure :=
  match next with
  | none => pure (.plain "yaml: parse error")
  | some msg => causedBy msg (.plain "yaml: parse error")

/-- The loop over the keys of a mapping, for so many keys. A key that could not be copied is
`NULL`. On an error of its own the loop releases what is held in the state. -/
def keyLoop {σ : Type} (next : Option String) (badKey : String) (release : σ → Alloc Unit)
    (onKey : Option Str → σ → List YamlEvent → Alloc (Reading σ)) :
    Nat → σ → List YamlEvent → Alloc (Reading σ)
  | 0, _, _ => stuck
  | steps + 1, s, evs => do
      let (ev, rest) ← nextEvent evs
      match ev with
      | none => do
          release s
          let e ← parseError next
          pure ⟨.error e, s, rest⟩
      | some ev =>
          match ev.event with
          | .mappingEnd => do
              eventDelete ev
              pure ⟨.ok (), s, rest⟩
          | .scalar text => do
              let key ← takeScalar ev text
              eventDelete ev
              let r ← onKey key s rest
              match r.result with
              | .error _ => pure r
              | .ok _ => keyLoop next badKey release onKey steps r.state r.rest
          | _ => do
              eventDelete ev
              release s
              fail badKey s rest

/-- The body of a loop that fails when a key could not be copied. -/
def withKey {σ : Type} (noKey : String) (body : Str → σ → List YamlEvent → Alloc (Reading σ))
    (key : Option Str) (s : σ) (evs : List YamlEvent) : Alloc (Reading σ) :=
  match key with
  | none => fail noKey s evs
  | some key => body key s evs

/-- A string of an entry that is stored under a key. -/
structure Slot (κ : Type) where
  key : CStr
  get : κ → Option Str
  set : κ → Option Str → κ

/-- How the fields of an entry are read: the texts of the errors, of which that for a string
that could not be copied may be missing, the strings that are stored under a key, and what an
entry holds, in the order in which it is freed. -/
structure Fields (κ : Type) where
  badKey : String
  badValue : String
  noMemory : Option String
  slots : List (Slot κ)
  strings : κ → List (Option Str)

namespace Fields

variable {κ : Type} (fields : Fields κ)

/-- Free the strings of an entry. -/
def release (k : κ) : Alloc Unit := (fields.strings k).forM freeStr

/-- Put a value into the slot of its key, if there is one, and take out what was there. -/
def assign (k : κ) (key : CStr) (val : Str) : Option (κ × Option Str) :=
  (fields.slots.find? fun slot => slot.key == key).map fun slot =>
    (slot.set k (some val), slot.get k)

/-- Store a value under a key, and free what is left over. -/
def store (key val : Option Str) (k : κ) (rest : List YamlEvent) : Alloc (Reading κ) :=
  match key, val with
  | some key, some val => do
      touch key.block
      match fields.assign k key.chars val with
      | some (k, old) => do
          freeStr old
          freeStr (some key)
          pure ⟨.ok (), k, rest⟩
      | none => do
          freeStr (some key)
          freeStr (some val)
          pure ⟨.ok (), k, rest⟩
  | key, val =>
      match fields.noMemory with
      | some msg => do
          freeStr key
          freeStr val
          fields.release k
          fail msg k rest
      | none => do
          freeStr key
          freeStr val
          pure ⟨.ok (), k, rest⟩

/-- Read the value of a key and store it. -/
def read (key : Option Str) (k : κ) (evs : List YamlEvent) : Alloc (Reading κ) := do
  let (ev, rest) ← nextEvent evs
  match ev with
  | none => do
      freeStr key
      fields.release k
      fail fields.badValue k rest
  | some ev =>
      match ev.event with
      | .scalar text => do
          let val ← takeScalar ev text
          eventDelete ev
          fields.store key val k rest
      | _ => do
          freeStr key
          fields.release k
          eventDelete ev
          fail fields.badValue k rest

/-- The loop over the fields of an entry. -/
def readAll (steps : Nat) (k : κ) (evs : List YamlEvent) : Alloc (Reading κ) :=
  keyLoop none fields.badKey fields.release fields.read steps k evs

/-- Read the fields of an entry and append it to an array, or drop the entry if there is no
room for it. -/
def readRow (initial : Nat) (noRoom : String) (drop : κ → Alloc Unit) (steps : Nat) (rows : Rows κ)
    (k : κ) (evs : List YamlEvent) : Alloc (Reading (Rows κ)) := do
  let inner ← fields.readAll steps k evs
  match inner.result with
  | .error e => pure ⟨.error e, rows, inner.rest⟩
  | .ok _ => do
      match ← rows.append initial inner.state with
      | none => do
          drop inner.state
          fail noRoom rows inner.rest
      | some rows => pure ⟨.ok (), rows, inner.rest⟩

end Fields

/-! ## The overlay -/

/-- `ykern_ynetlink_genl_mcast_overlay`. -/
structure McastRow where
  name : Option Str
  shortDesc : Option Str
  longDesc : Option Str

/-- `ykern_ynetlink_genl_attr_overlay`. -/
structure AttrRow where
  attrId : UInt32
  name : Option Str
  typeHint : Option Str

/-- `ykern_ynetlink_genl_attr_set_overlay`. -/
structure SetRow where
  setName : Str
  attrs : Arr AttrRow

/-- `ykern_ynetlink_genl_family_overlay`, in a block of its own. -/
structure HeldOverlay where
  self : Block
  familyName : Option Str
  shortDesc : Option Str
  longDesc : Option Str
  ops : Arr (OpOverlay Str)
  mcast : Arr McastRow
  attrSets : Arr SetRow

instance : Holder (OpOverlay Str) where
  blocks row := blocks row.name + blocks row.shortDesc + blocks row.longDesc

instance : Holder McastRow where
  blocks row := blocks row.name + blocks row.shortDesc + blocks row.longDesc

instance : Holder AttrRow where
  blocks row := blocks row.name + blocks row.typeHint

instance : Holder SetRow where
  blocks set := blocks set.setName + blocks set.attrs

instance : Holder HeldOverlay where
  blocks o := blocks o.self + blocks o.familyName + blocks o.shortDesc + blocks o.longDesc +
    blocks o.ops + blocks o.mcast + blocks o.attrSets

/-- `overlay_loader`: the overlay under construction and the capacities. -/
structure Loader where
  out : HeldOverlay
  opCapacity : Nat
  mcastCapacity : Nat
  attrSetCapacity : Nat

instance : Holder Loader where
  blocks l := blocks l.out

/-- Nothing is released: what was read so far stays in the overlay. -/
def keep {σ : Type} (_ : σ) : Alloc Unit := pure ()

/-! ## Operations -/

/-- The fields of `read_op_inner`. -/
def opFields : Fields (OpOverlay Str) where
  badKey := "yaml: expected scalar key in op map"
  badValue := "yaml: expected scalar value in op map"
  noMemory := some "yaml: oom in op map"
  slots := [⟨lit "name", (·.name), fun row s => { row with name := s }⟩,
    ⟨lit "short", (·.shortDesc), fun row s => { row with shortDesc := s }⟩,
    ⟨lit "long", (·.longDesc), fun row s => { row with longDesc := s }⟩]
  strings row := [row.name, row.shortDesc, row.longDesc]

/-- `read_op_inner`. -/
def readOpInner (steps : Nat) (l : Loader) (cmdId : UInt32) (name : Option Str)
    (evs : List YamlEvent) : Alloc (Reading Loader) := do
  let r ← opFields.readRow 8 "yaml: op array realloc failed" opFields.release steps
    ⟨l.out.ops, l.opCapacity⟩ ⟨cmdId, name, none, none⟩ evs
  pure ⟨r.result,
    { l with out := { l.out with ops := r.state.array }, opCapacity := r.state.capacity }, r.rest⟩

/-- The body of the loop of `read_operations`, with a key. -/
def readOp (steps : Nat) (key : Str) (l : Loader) (evs : List YamlEvent) :
    Alloc (Reading Loader) := do
  touch key.block
  match parseUint32 key.chars with
  | some cmdId => do
      freeStr (some key)
      expectThen .mappingStart "yaml: op value expected mapping" (freeStr none) l evs fun rest => do
        let r ← readOpInner steps l cmdId none rest
        wrap "yaml: read_op_inner failed" r
  | none =>
      expectThen .mappingStart "yaml: op value expected mapping" (freeStr (some key)) l evs
        fun rest => do
          let r ← readOpInner steps l 0 (some key) rest
          wrap "yaml: read_op_inner failed" r

/-- `read_operations`. -/
def readOperations (steps : Nat) (l : Loader) (evs : List YamlEvent) : Alloc (Reading Loader) :=
  expectThen .mappingStart "yaml: operations expected mapping" (pure ()) l evs
    (keyLoop (some "yaml: operations next") "yaml: operations expected scalar key" keep
      (withKey "yaml: oom on op key" (readOp steps)) steps l)

/-! ## Multicast groups -/

/-- The fields of `read_mcast_entry`. -/
def mcastFields : Fields McastRow where
  badKey := "yaml: expected scalar in mcast map"
  badValue := "yaml: expected scalar value in mcast map"
  noMemory := some "yaml: oom in mcast map"
  slots := [⟨lit "short", (·.shortDesc), fun row s => { row with shortDesc := s }⟩,
    ⟨lit "long", (·.longDesc), fun row s => { row with longDesc := s }⟩]
  strings row := [row.name, row.shortDesc, row.longDesc]

/-- `read_mcast_entry`. -/
def readMcastEntry (steps : Nat) (l : Loader) (name : Str) (evs : List YamlEvent) :
    Alloc (Reading Loader) := do
  let r ← mcastFields.readRow 8 "yaml: mcast array realloc failed" mcastFields.release steps
    ⟨l.out.mcast, l.mcastCapacity⟩ ⟨some name, none, none⟩ evs
  pure ⟨r.result,
    { l with out := { l.out with mcast := r.state.array }, mcastCapacity := r.state.capacity },
    r.rest⟩

/-- The body of the loop of `read_mcast_groups`, with a key. -/
def readMcast (steps : Nat) (name : Str) (l : Loader) (evs : List YamlEvent) :
    Alloc (Reading Loader) :=
  expectThen .mappingStart "yaml: mcast value expected mapping" (freeStr (some name)) l evs
    fun rest => do
      let r ← readMcastEntry steps l name rest
      wrap "yaml: read_mcast_entry failed" r

/-- `read_mcast_groups`. -/
def readMcastGroups (steps : Nat) (l : Loader) (evs : List YamlEvent) : Alloc (Reading Loader) :=
  expectThen .mappingStart "yaml: mcast_groups expected mapping" (pure ()) l evs
    (keyLoop (some "yaml: mcast_groups next") "yaml: mcast_groups expected name key" keep
      (withKey "yaml: oom on mcast key" (readMcast steps)) steps l)

/-! ## Attribute sets -/

/-- The fields of an attribute. A string that could not be copied is passed over. -/
def attrFields : Fields AttrRow where
  badKey := "yaml: attr inner expected scalar key"
  badValue := "yaml: attr inner expected scalar value"
  noMemory := none
  slots := [⟨lit "name", (·.name), fun attr s => { attr with name := s }⟩,
    ⟨lit "type", (·.typeHint), fun attr s => { attr with typeHint := s }⟩]
  strings attr := [attr.name, attr.typeHint]

/-- A set while its attributes are read: the array its slot is in, the slot and the local
capacity. -/
structure OpenSet where
  sets : Option Block
  slot : SetRow
  cap : Nat

instance : Holder OpenSet where
  blocks s := blocks s.sets + blocks s.slot

/-- What is freed of an attribute for which there is no room: only its name. -/
def dropAttr (attr : AttrRow) : Alloc Unit := freeStr attr.name

/-- The part of the outer loop of `read_attr_entries_into_set` after the id. -/
def readAttrInner (steps : Nat) (s : OpenSet) (attrId : UInt32) (evs : List YamlEvent) :
    Alloc (Reading OpenSet) := do
  deref s.sets
  let r ← attrFields.readRow 16 "yaml: attrs realloc failed" dropAttr steps
    ⟨s.slot.attrs, s.cap⟩ ⟨attrId, none, none⟩ evs
  pure ⟨r.result,
    { s with slot := { s.slot with attrs := r.state.array }, cap := r.state.capacity }, r.rest⟩

/-- The body of the outer loop of `read_attr_entries_into_set`, with a key. -/
def readAttr (steps : Nat) (key : Str) (s : OpenSet) (evs : List YamlEvent) :
    Alloc (Reading OpenSet) := do
  touch key.block
  freeStr (some key)
  match parseUint32 key.chars with
  | none => fail "yaml: attr key not an integer" s evs
  | some attrId =>
      expectThen .mappingStart "yaml: attr value expected mapping" (pure ()) s evs
        (readAttrInner steps s attrId)

/-- `read_attr_entries_into_set`. -/
def readAttrEntriesIntoSet (steps : Nat) (s : OpenSet) (evs : List YamlEvent) :
    Alloc (Reading OpenSet) :=
  keyLoop (some "yaml: attr set next") "yaml: attr set expects int key" keep
    (withKey "yaml: oom on attr key" (readAttr steps)) steps s evs

/-- Put a set that was read back into its slot. -/
def Loader.storeSet (l : Loader) (set : Nat) (s : OpenSet) : Loader :=
  { l with
    out := { l.out with
      attrSets := { l.out.attrSets with items := l.out.attrSets.items.set set s.slot } } }

/-- The body of the loop of `read_attribute_sets` after the start of the value. -/
def readSet (steps : Nat) (setName : Str) (l : Loader) (evs : List YamlEvent) :
    Alloc (Reading Loader) := do
  match ← Rows.append 16 ⟨l.out.attrSets, l.attrSetCapacity⟩ ⟨setName, .empty⟩ with
  | none => do
      freeStr (some setName)
      fail "yaml: attr_sets realloc failed" l evs
  | some rows => do
      let opened : Loader :=
        { l with out := { l.out with attrSets := rows.array }, attrSetCapacity := rows.capacity }
      let inner ← readAttrEntriesIntoSet steps ⟨rows.array.block, ⟨setName, .empty⟩, 0⟩ evs
      wrap "yaml: attr set entries failed"
        ⟨inner.result, opened.storeSet l.out.attrSets.items.length inner.state, inner.rest⟩

/-- The body of the loop of `read_attribute_sets`, with a key. -/
def readNamedSet (steps : Nat) (setName : Str) (l : Loader) (evs : List YamlEvent) :
    Alloc (Reading Loader) :=
  expectThen .mappingStart "yaml: set value expected mapping" (freeStr (some setName)) l evs
    (readSet steps setName l)

/-- `read_attribute_sets`. -/
def readAttributeSets (steps : Nat) (l : Loader) (evs : List YamlEvent) : Alloc (Reading Loader) :=
  expectThen .mappingStart "yaml: attribute_sets expected mapping" (pure ()) l evs
    (keyLoop (some "yaml: attribute_sets next") "yaml: attribute_sets expects name key" keep
      (withKey "yaml: oom on set key" (readNamedSet steps)) steps l)

/-! ## The top-level mapping -/

/-- The scalars of the top-level mapping. What was read before stays in the overlay. -/
def topFields : Fields Loader where
  badKey := "yaml: top map expects scalar key"
  badValue := "yaml: top map expected scalar value"
  noMemory := some "yaml: oom on top val"
  slots :=
    [⟨lit "family", (·.out.familyName), fun l s => { l with out := { l.out with familyName := s } }⟩,
      ⟨lit "short", (·.out.shortDesc), fun l s => { l with out := { l.out with shortDesc := s } }⟩,
      ⟨lit "long", (·.out.longDesc), fun l s => { l with out := { l.out with longDesc := s } }⟩]
  strings _ := []

/-- A section, read after its key is freed. -/
def readSection (msg : String) (key : Str) (section' : Alloc (Reading Loader)) :
    Alloc (Reading Loader) := do
  touch key.block
  freeStr (some key)
  let r ← section'
  wrap msg r

/-- The body of the loop of `read_top`, with a key. -/
def readTopKey (steps : Nat) (key : Str) (l : Loader) (evs : List YamlEvent) :
    Alloc (Reading Loader) :=
  if key.chars = lit "operations" then
    readSection "yaml: operations failed" key (readOperations steps l evs)
  else if key.chars = lit "mcast_groups" then
    readSection "yaml: mcast_groups failed" key (readMcastGroups steps l evs)
  else if key.chars = lit "attribute_sets" then
    readSection "yaml: attribute_sets failed" key (readAttributeSets steps l evs)
  else topFields.read (some key) l evs

/-- `read_top`. -/
def readTop (steps : Nat) (l : Loader) (evs : List YamlEvent) : Alloc (Reading Loader) :=
  expectThen .streamStart "yaml: stream start" (pure ()) l evs fun evs =>
    expectThen .documentStart "yaml: document start" (pure ()) l evs fun evs =>
      expectThen .mappingStart "yaml: top mapping" (pure ()) l evs fun evs =>
        keyLoop (some "yaml: top map next") "yaml: top map expects scalar key" keep
          (withKey "yaml: oom on top key" (readTopKey steps)) steps l evs

/-! ## Files -/

/-- The overlay `calloc` hands to the loader. -/
def HeldOverlay.zero (self : Block) : HeldOverlay :=
  ⟨self, none, none, none, .empty, .empty, .empty⟩

/-- The loader `load_one_file` sets up, to resume at the sizes of the arrays. -/
def Loader.resume (out : HeldOverlay) : Loader :=
  { out := out
    opCapacity := out.ops.items.length
    mcastCapacity := out.mcast.items.length
    attrSetCapacity := 0 }

/-- What loading a file leaves: whether it was there, and the overlay. -/
structure Loaded where
  loadedAny : Except Failure Bool
  out : HeldOverlay

/-- `load_one_file`. Opening the file and setting up the parser are requests too. -/
def loadOneFile (out : HeldOverlay) : OverlayFile → Alloc Loaded
  | .absent => pure ⟨.ok false, out⟩
  | .unreadable => pure ⟨.error (.plain "overlay_load: fopen failed"), out⟩
  | .events evs => do
      match ← malloc with
      | none => pure ⟨.error (.plain "overlay_load: fopen failed"), out⟩
      | some f => do
          match ← malloc with
          | none => do
              freeBlock (some f)
              pure ⟨.error (.plain "overlay_load: yaml_parser_initialize failed"), out⟩
          | some parser => do
              let read ← readTop (evs.length + 1) (.resume out) evs
              freeBlock (some parser)
              freeBlock (some f)
              match read.result with
              | .error e => do
                  let e ← causedBy "overlay_load: yaml parse failed" e
                  pure ⟨.error e, read.state.out⟩
              | .ok _ => pure ⟨.ok true, read.state.out⟩

/-- Free the strings of a row of an array. -/
def freeRow (array : Option Block) (strings : List (Option Str)) : Alloc Unit := do
  deref array
  strings.forM freeStr

/-- Free an attribute set of the array. -/
def freeSet (array : Option Block) (set : SetRow) : Alloc Unit := do
  deref array
  freeStr (some set.setName)
  set.attrs.items.forM fun attr => freeRow set.attrs.block (attrFields.strings attr)
  freeBlock set.attrs.block

/-- `ykern_ynetlink_genl_family_overlay_destroy`. -/
def overlayDestroy (o : Option HeldOverlay) : Alloc Unit :=
  match o with
  | none => pure ()
  | some o => do
      touch o.self
      freeStr o.familyName
      freeStr o.shortDesc
      freeStr o.longDesc
      o.ops.items.forM fun row => freeRow o.ops.block (opFields.strings row)
      freeBlock o.ops.block
      o.mcast.items.forM fun row => freeRow o.mcast.block (mcastFields.strings row)
      freeBlock o.mcast.block
      o.attrSets.items.forM fun set => freeSet o.attrSets.block set
      freeBlock o.attrSets.block
      freeBlock (some o.self)

/-- `merge_curated_into_generated`, on an overlay. -/
def mergeOps (o : HeldOverlay) : Alloc HeldOverlay := do
  let ops ← ofTraced Str.block (mergeCuratedIntoGenerated Str.chars o.ops.items)
  pure { o with ops := { o.ops with items := ops } }

/-- `ykern_ynetlink_genl_overlay_load`. -/
def overlayLoad (base : CStr) (files : CStr → OverlayFile) (familyName : CStr) :
    Alloc (Except Failure (Option HeldOverlay)) :=
  if 4096 ≤ (generatedPath base familyName).length then
    pure (.error (.plain "overlay_load: generated path too long"))
  else if 4096 ≤ (curatedPath base familyName).length then
    pure (.error (.plain "overlay_load: curated path too long"))
  else do
    match ← malloc with
    | none => pure (.error (.plain "overlay_load: out calloc failed"))
    | some out => do
        let generated ← loadOneFile (.zero out) (files (generatedPath base familyName))
        match generated.loadedAny with
        | .error e => do
            overlayDestroy (some generated.out)
            let e ← causedBy "overlay_load: generated file failed" e
            pure (.error e)
        | .ok loadedGenerated => do
            let curated ← loadOneFile generated.out (files (curatedPath base familyName))
            match curated.loadedAny with
            | .error e => do
                overlayDestroy (some curated.out)
                let e ← causedBy "overlay_load: curated file failed" e
                pure (.error e)
            | .ok loadedCurated =>
                if loadedGenerated = false ∧ loadedCurated = false then do
                  overlayDestroy (some curated.out)
                  pure (.ok none)
                else do
                  let o ← mergeOps curated.out
                  pure (.ok (some o))

/-- What is done with a result that is no longer needed. -/
def release (r : Except Failure (Option HeldOverlay)) : Alloc Unit :=
  match r with
  | .error e => errorDestroy e
  | .ok o => overlayDestroy o

end Ykern.Overlay.Memory
