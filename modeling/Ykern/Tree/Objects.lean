import Ykern.Foundation.Forest
import Ykern.Overlay.Loader
import Mathlib.Logic.Function.Basic

/-!
# Objects

The nodes of the tree are objects in memory. An object has an array of its children, which
is filled when they are first asked for, and a pointer to its parent. The root keeps the
transports it was created with until it hands them over as its children.

The operations of the objects are functions on memory (`Heap`). An operation that would
touch an object that was destroyed has no result; a callback decides which nodes it creates
and how it ends, and every growth of an array may fail.
-/

set_option autoImplicit false

namespace Ykern.Tree

open Overlay

/-- Where an object is. -/
abbrev Addr := Nat

variable {ν : Type}

/-- What is behind the base of an object: the transports that the root has yet to hand over,
or what the kind of node has. -/
inductive Impl (ν : Type) where
  | root (pending : List Addr)
  | node (value : ν)

/-- `ykern_ycore_object`, with what is behind it. -/
structure Obj (ν : Type) where
  impl : Impl ν
  parent : Option Addr
  children : List Addr
  capacity : Nat
  populated : Bool

/-- A new object. -/
def Obj.new (impl : Impl ν) : Obj ν := ⟨impl, none, [], 0, false⟩

/-- A child that a callback creates, what it says if the child cannot be appended, and
whether it goes on then. -/
structure Spawn (ν : Type) where
  value : ν
  failure : Error
  ignored : Bool

/-- What a callback does: the children it creates and appends, and how it ends if it gets
there. The growths of the array for which `realloc` succeeds are those of `grows`. -/
structure Populate (ν : Type) where
  spawns : List (Spawn ν)
  result : Except Error Unit
  grows : Nat → Bool

/-- What is called on an object. -/
inductive Call (ν : Type) where
  | getChildren (self : Addr) (p : Populate ν)
  | refresh (self : Addr)

/-- The object that is called. -/
def Call.self : Call ν → Addr
  | .getChildren self _ => self
  | .refresh self => self

/-- The objects in memory, where the next is created, and which were destroyed, in order. -/
structure Heap (ν : Type) where
  cells : Addr → Option (Obj ν)
  fresh : Addr
  destroyed : List Addr

namespace Heap

/-- There is an object. -/
def Live (h : Heap ν) (a : Addr) : Prop := (h.cells a).isSome = true

instance (h : Heap ν) (a : Addr) : Decidable (h.Live a) := inferInstanceAs (Decidable (_ = _))

/-- Nothing was created. -/
def empty : Heap ν := ⟨fun _ => none, 0, []⟩

/-- Write an object. -/
def set (h : Heap ν) (a : Addr) (o : Obj ν) : Heap ν :=
  { h with cells := Function.update h.cells a (some o) }

/-- Create an object. -/
def create (h : Heap ν) (impl : Impl ν) : Addr × Heap ν :=
  (h.fresh, { h.set h.fresh (.new impl) with fresh := h.fresh + 1 })

/-- Free an object. -/
def free (h : Heap ν) (a : Addr) : Heap ν :=
  { h with cells := Function.update h.cells a none, destroyed := h.destroyed ++ [a] }

/-! ## Destroying -/

/-- `ykern_ycore_object_drop_children`, with a way to destroy each. -/
def dropChildrenWith (destroy : Heap ν → Addr → Option (Heap ν)) (h : Heap ν) (self : Addr) :
    Option (Heap ν) := do
  let o ← h.cells self
  let h ← o.children.foldlM destroy h
  some (h.set self { o with children := [], capacity := 0 })

/-- `root_destroy_impl`, with a way to destroy each pending transport; nodes of other kinds
free what is their own. -/
def destroyImplWith (destroy : Heap ν → Addr → Option (Heap ν)) (h : Heap ν) (self : Addr) :
    Option (Heap ν) := do
  let o ← h.cells self
  match o.impl with
  | .root pending => pending.foldlM destroy h
  | .node _ => some h

/-- `ykern_ycore_object_destroy`, to this depth. -/
def destroyWithin : Nat → Heap ν → Addr → Option (Heap ν)
  | 0, _, _ => none
  | depth + 1, h, self => do
      let h ← dropChildrenWith (destroyWithin depth) h self
      let h ← destroyImplWith (destroyWithin depth) h self
      some (h.free self)

/-- `ykern_ycore_object_destroy`. No tree is deeper than the number of objects. -/
def destroy (h : Heap ν) (self : Addr) : Option (Heap ν) := destroyWithin (h.fresh + 1) h self

/-- Destroy these objects, one after the other. -/
def destroyAll (h : Heap ν) (as : List Addr) : Option (Heap ν) :=
  as.foldlM (destroyWithin (h.fresh + 1)) h

/-- `ykern_ycore_object_drop_children`. -/
def dropChildren (h : Heap ν) (self : Addr) : Option (Heap ν) :=
  dropChildrenWith (destroyWithin (h.fresh + 1)) h self

/-! ## Children -/

/-- The capacity of an array for one more. -/
def grown (count capacity : Nat) : Nat :=
  if count = capacity then if capacity = 0 then 8 else capacity * 2 else capacity

/-- `ykern_ycore_object_append_child`. The array grows if `realloc` succeeds. -/
def appendChild (grows : Bool) (h : Heap ν) (self child : Addr) :
    Option (Heap ν × Except Error Unit) := do
  let o ← h.cells self
  if o.children.length = o.capacity ∧ grows = false then
    some (h, .error ["ykern_ycore_object_append_child: realloc failed"])
  else
    let c ← h.cells child
    let h := h.set child { c with parent := some self }
    let capacity := grown o.children.length o.capacity
    some (h.set self { o with children := o.children ++ [child], capacity := capacity }, .ok ())

/-- The callbacks of the nodes: create children and append each. A child that cannot be
appended is destroyed. -/
def spawnAll (self : Addr) (grows : Nat → Bool) (result : Except Error Unit) :
    Nat → List (Spawn ν) → Heap ν → Option (Heap ν × Except Error Unit)
  | _, [], h => some (h, result)
  | i, s :: spawns, h => do
      let (child, h) := h.create (.node s.value)
      let (h, appended) ← h.appendChild (grows i) self child
      match appended with
      | .ok () => spawnAll self grows result (i + 1) spawns h
      | .error e => do
          let h ← h.destroy child
          if s.ignored then spawnAll self grows result (i + 1) spawns h
          else some (h, .error (s.failure ++ e))

/-- The loop of `root_populate_children`. When a transport cannot be appended, it and those
behind it are destroyed. -/
def movePending (self : Addr) (grows : Nat → Bool) :
    Nat → List Addr → Heap ν → Option (Heap ν × Except Error Unit)
  | _, [], h => some (h, .ok ())
  | i, p :: pending, h => do
      let (h, appended) ← h.appendChild (grows i) self p
      match appended with
      | .ok () => movePending self grows (i + 1) pending h
      | .error e => do
          let h ← h.destroyAll (p :: pending)
          some (h, .error ("root_populate_children: append failed" :: e))

/-- The list of pending transports is freed. -/
def clearPending (h : Heap ν) (self : Addr) : Option (Heap ν) := do
  let o ← h.cells self
  some (h.set self { o with impl := .root [] })

/-- The callback of an object: `root_populate_children`, or that of a node. -/
def populateChildren (h : Heap ν) (self : Addr) (p : Populate ν) :
    Option (Heap ν × Except Error Unit) := do
  let o ← h.cells self
  match o.impl with
  | .root pending => do
      let (h, result) ← movePending self p.grows 0 pending h
      let h ← h.clearPending self
      some (h, result)
  | .node _ => spawnAll self p.grows p.result 0 p.spawns h

/-- `ykern_ycore_object_get_children`. -/
def getChildren (h : Heap ν) (self : Addr) (p : Populate ν) :
    Option (Heap ν × Except Error (List Addr)) := do
  let o ← h.cells self
  if o.populated then some (h, .ok o.children)
  else do
    let (h, result) ← h.populateChildren self p
    match result with
    | .error e => some (h, .error ("ykern_ycore_object_get_children: populate failed" :: e))
    | .ok () => do
        let o ← h.cells self
        some (h.set self { o with populated := true }, .ok o.children)

/-- `ykern_ycore_object_refresh`. -/
def refresh (h : Heap ν) (self : Addr) : Option (Heap ν) := do
  let h ← h.dropChildren self
  let o ← h.cells self
  some (h.set self { o with populated := false })

/-! ## The root -/

/-- Create the transports. -/
def createAll : List ν → Heap ν → List Addr × Heap ν
  | [], h => ([], h)
  | v :: vs, h =>
      let (a, h) := h.create (.node v)
      let (as, h) := createAll vs h
      (a :: as, h)

/-- `ykern_ycore_root_create` with new transports: the root and the heap. -/
def rootCreate (transports : List ν) : Addr × Heap ν :=
  let (as, h) := createAll transports empty
  h.create (.root as)

/-! ## Runs -/

/-- A call. -/
def call (h : Heap ν) : Call ν → Option (Heap ν)
  | .getChildren self p => (h.getChildren self p).map (·.1)
  | .refresh self => h.refresh self

/-- A run of calls. Only objects that are there can be called, and other calls are left out. -/
def run : List (Call ν) → Heap ν → Option (Heap ν)
  | [], h => some h
  | c :: cs, h => if h.Live c.self then (h.call c).bind (run cs) else run cs h

end Heap

end Ykern.Tree
