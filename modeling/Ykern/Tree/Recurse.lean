import Ykern.Foundation.Preorder
import Ykern.Genl.FamilyMessage
import Ykern.Tree.PathJoin
import Ykern.Tree.FsPaths
import Ykern.Tree.Resolve

/-!
# Walking a subtree

`browse -r` prints an object, asks it for its children and does the same with each of them.
The callbacks run on the way, so the tree grows while it is walked, and where a callback
fails nothing is said of what would be below.

The objects that are printed are those of the subtree that is there in the end, in preorder,
none of them twice, and each line says what it would say of the tree in the end
(`Heap.Explored`). A walk comes to an end if a callback creates only nodes of a lower rank.
Those of the repository do: a directory on the disk may be reached through a symbolic link
from below itself, but what is below it has a longer path and paths are bounded, so calls
are nested to a fixed depth whatever is on the disk (`recurseSubtree_explores`).
-/

set_option autoImplicit false

namespace Ykern.Tree

open Forest Overlay

variable {ν : Type}

/-! ## What is printed -/

/-- The lines of `print_long_indented`, with what is left of the text at the start of the line
and at the cursor, and how far they are apart. -/
def indentedLines : CStr → Nat → CStr → Bytes
  | line, n, [] => lit "  " ++ printPrecision (Genl.toInt (n % 2 ^ 32)) line ++ lit "\n"
  | line, n, c :: p =>
      if c = 10 then
        lit "  " ++ printPrecision (Genl.toInt (n % 2 ^ 32)) line ++ lit "\n" ++
          indentedLines p 0 p
      else indentedLines line (n + 1) p

/-- `print_long_indented`. -/
def printLongIndented (text : CStr) : Bytes := indentedLines text 0 text

/-- The getters of a kind of node. A long description may name what is behind the parent. -/
structure Getters (ν : Type) where
  kindName : ν → CStr
  name : ν → Except Error CStr
  short : ν → Except Error CStr
  long : Option ν → ν → Except Error CStr

/-- `ykern_ycore_object_kind_name`. -/
def Getters.kindOf (g : Getters ν) : Impl ν → CStr
  | .root _ => lit "root"
  | .node v => g.kindName v

/-- `ykern_ycore_object_get_short_description`, with `root_get_short_description`. -/
def Getters.shortOf (g : Getters ν) : Impl ν → Except Error CStr
  | .root _ => .ok (lit "Linux kernel — every transport ykern can reach")
  | .node v => g.short v

/-- `ykern_ycore_object_get_long_description`, with `root_get_long_description`. -/
def Getters.longOf (g : Getters ν) (parent : Option ν) : Impl ν → Except Error CStr
  | .root _ => .ok (lit ("The synthetic root of the kernel-object tree. Each child is a " ++
      "transport handler (netlink, /proc, /sys, ...). Browse a child to explore the kernel " ++
      "surface that transport exposes."))
  | .node v => g.long parent v

/-- What `recurse_subtree` prints of an object with this path. -/
def Getters.entry (g : Getters ν) (withLong : Bool) (depth : Nat) (parent : Option ν)
    (impl : Impl ν) (path : Except Error CStr) : Bytes :=
  Genl.indentText depth ++
    match path with
    | .error _ => []
    | .ok path =>
        lit "[" ++ g.kindOf impl ++ lit "] " ++ (if 0 < path.length then path else lit "/") ++
          lit "\n" ++
          (match g.shortOf impl with
            | .ok short => Genl.indentText depth ++ lit "    " ++ short ++ lit "\n"
            | .error _ => []) ++
          if withLong then
            match g.longOf parent impl with
            | .ok long => printLongIndented long
            | .error _ => []
          else []

namespace Heap

/-- What `recurse_subtree` prints of an object before it asks for its children. -/
def entryText (h : Heap ν) (g : Getters ν) (withLong : Bool) (self : Addr) (depth : Nat) :
    Option Bytes := do
  let path ← h.getPath g.name true true (h.fresh + 1) self
  let o ← h.cells self
  some (g.entry withLong depth (h.parentValue o) o.impl path)

/-- The loop over the children. -/
def forChildren (visit : Heap ν → Addr → Option (Heap ν × Bytes)) :
    List Addr → Heap ν → Option (Heap ν × Bytes)
  | [], h => some (h, [])
  | c :: cs, h => do
      let (h, first) ← visit h c
      let (h, others) ← forChildren visit cs h
      some (h, first ++ others)

/-- `recurse_subtree`, with this many calls nested, and what it prints. What a callback does
may depend on all that happened before. -/
def recurseSubtree (g : Getters ν) (withLong : Bool) (populate : Heap ν → Addr → Populate ν) :
    Nat → Heap ν → Addr → Nat → Option (Heap ν × Bytes)
  | 0, _, _, _ => none
  | frames + 1, h, self, depth => do
      let text ← h.entryText g withLong self depth
      let (h, listed) ← h.getChildren self (populate h self)
      match listed with
      | .error _ => some (h, text)
      | .ok children => do
          let (h, below) ← forChildren
            (fun h c => recurseSubtree g withLong populate frames h c (depth + 1)) children h
          some (h, text ++ below)

/-! ## Going up -/

variable {h h₁ h' : Heap ν} {start : Option Addr} {visited : List ν}

/-- More steps visit the same nodes. -/
theorem upward_mono {steps more : Nat} (up : h.upward steps start = some visited)
    (enough : steps ≤ more) : h.upward more start = some visited := by
  induction steps generalizing start visited more with
  | zero => cases up
  | succ steps ih =>
      obtain ⟨more, rfl⟩ : ∃ m, more = m + 1 := ⟨more - 1, by omega⟩
      cases start with
      | none => exact up
      | some p =>
          simp only [Heap.upward, Option.bind_eq_bind] at up ⊢
          obtain ⟨o, cell, up⟩ := Option.bind_eq_some_iff.mp up
          rw [cell, Option.bind_some]
          cases impl : o.impl with
          | root pending =>
              rw [impl] at up
              exact up
          | node v =>
              rw [impl] at up
              obtain ⟨above, further, same⟩ := Option.bind_eq_some_iff.mp up
              simp only [ih further (Nat.le_of_succ_le_succ enough), Option.bind_some, same]

/-- The path of an object depends on the nodes that are visited. -/
theorem getPath_congr {names : ν → Except Error CStr} {a : Addr} {steps steps' : Nat}
    (up : h.upward steps (some a) = some visited)
    (up' : h'.upward steps' (some a) = some visited) (callocs mallocs : Bool) :
    h'.getPath names callocs mallocs steps' a = h.getPath names callocs mallocs steps a := by
  rw [getPath, getPath, countDepth_of_upward up, countDepth_of_upward up']
  simp only [Option.bind_eq_bind, Option.bind_some, fillSegments_of_upward up,
    fillSegments_of_upward up']

/-- The names of the nodes that are visited fill the segments, or one of them fails. -/
theorem exists_fillNames (names : ν → Except Error CStr) (visited : List ν)
    (segments : List CStr) :
    ∃ filled, fillNames names visited visited.length segments = some filled := by
  induction visited generalizing segments with
  | nil => exact ⟨_, rfl⟩
  | cons v visited ih =>
      simp only [fillNames, List.length_cons]
      cases names v with
      | error e => exact ⟨_, rfl⟩
      | ok name => exact ih _

/-- There is a path, or the name of a node on the way fails. -/
theorem exists_getPath (names : ν → Except Error CStr) {a : Addr} {steps : Nat}
    (up : h.upward steps (some a) = some visited) :
    ∃ path, h.getPath names true true steps a = some path := by
  rw [getPath, countDepth_of_upward up]
  simp only [Option.bind_eq_bind, Option.bind_some, fillSegments_of_upward up]
  split
  · exact ⟨_, rfl⟩
  · obtain ⟨filled, eq⟩ := exists_fillNames names visited (List.replicate visited.length [])
    rw [eq]
    cases filled with
    | error e => exact ⟨_, rfl⟩
    | ok filled =>
        obtain ⟨idx, segments⟩ := filled
        have size : (joined slash segments).length =
            (segments.map fun seg : CStr => 1 + seg.length).sum := length_joined segments
        simp only [Bool.true_eq_false, if_false, Option.map_some, Except.map, Option.bind_some,
          putSegments]
        rw [foldlM_putSegment segments (by rw [List.length_nil]; omega), Option.bind_some,
          List.nil_append, put_eq (by rw [List.length_singleton]; omega), Option.bind_some]
        exact ⟨_, rfl⟩

/-! ## What a walk leaves -/

/-- From `h` to `h'` only these objects changed, and objects that were created. No object
changes what is behind its base, where it stands, or what was enumerated. -/
structure Walked (h h' : Heap ν) (touched : List Addr) : Prop where
  keeps : h.Keeps h'
  parents : ∀ a o o', h.cells a = some o → h'.cells a = some o' → o'.parent = o.parent
  others : ∀ a, a ∉ touched → a < h.fresh → h'.cells a = h.cells a
  later : h.fresh ≤ h'.fresh

namespace Walked

variable {touched more : List Addr}

theorem refl (h : Heap ν) : h.Walked h [] := by
  refine ⟨.refl h, ?_, fun _ _ _ => rfl, Nat.le_refl _⟩
  intro a o o' cell cell'
  rw [Option.some.inj (cell.symm.trans cell')]

theorem trans (first : h.Walked h₁ touched) (second : h₁.Walked h' more) :
    h.Walked h' (touched ++ more) := by
  refine ⟨first.keeps.trans second.keeps, ?_, ?_, Nat.le_trans first.later second.later⟩
  · intro a o o' cell cell'
    obtain ⟨o₁, cell₁, -, -⟩ := first.keeps a o cell
    exact (second.parents a o₁ o' cell₁ cell').trans (first.parents a o o₁ cell cell₁)
  · intro a apart old
    rw [List.mem_append, not_or] at apart
    exact (second.others a apart.2 (Nat.lt_of_lt_of_le old first.later)).trans
      (first.others a apart.1 old)

/-- The parents of objects stay. -/
theorem parent (walked : h.Walked h' touched) {a p : Addr} (up : Parent h.links a p) :
    Parent h'.links a p := by
  obtain ⟨cs, cell⟩ := up
  obtain ⟨o, cellA, parent, -⟩ := exists_cell cell
  obtain ⟨o', cell', -, -⟩ := walked.keeps a o cellA
  exact ⟨o'.children, by rw [links_eq cell', walked.parents a o o' cellA cell', parent]⟩

/-- The way up from an object stays. -/
theorem upward (walked : h.Walked h' touched) {steps : Nat}
    (up : h.upward steps start = some visited) : h'.upward steps start = some visited := by
  induction steps generalizing start visited with
  | zero => cases up
  | succ steps ih =>
      cases start with
      | none => exact up
      | some p =>
          simp only [Heap.upward, Option.bind_eq_bind] at up ⊢
          obtain ⟨o, cell, up⟩ := Option.bind_eq_some_iff.mp up
          obtain ⟨o', cell', impl, -⟩ := walked.keeps p o cell
          rw [cell', Option.bind_some, impl]
          cases kind : o.impl with
          | root pending =>
              rw [kind] at up
              exact up
          | node v =>
              rw [kind] at up
              obtain ⟨above, further, same⟩ := Option.bind_eq_some_iff.mp up
              rw [walked.parents p o o' cell cell']
              simp only [ih further, Option.bind_some, same]

end Walked

end Heap

namespace Owned

open Heap

variable {h h₁ h' : Heap ν} {root self : Addr} {pending all : List Addr} {o : Obj ν}

/-- The way up from what is held ends, if that from the parent does. -/
theorem upward_of_held {parent : Option Addr} {as part : List Addr}
    (held : Held h.links parent as part) {steps : Nat} {above : List ν}
    (up : h.upward steps parent = some above) :
    ∀ a ∈ part, ∃ visited, h.upward (steps + part.length) (some a) = some visited := by
  induction held generalizing steps above with
  | nil =>
      intro a member
      cases member
  | @cons parent x cs below rest others cell _ _ ihChildren ihSiblings =>
      obtain ⟨o, cellX, rfl, -⟩ := exists_cell cell
      have through : ∃ visited, h.upward (steps + 1) (some x) = some visited := by
        simp only [Heap.upward, cellX, Option.bind_eq_bind, Option.bind_some]
        cases o.impl with
        | root pending => exact ⟨_, rfl⟩
        | node v => exact ⟨v :: above, by simp only [up, Option.bind_some]⟩
      obtain ⟨visited, upX⟩ := through
      intro a member
      rw [List.length_append, List.length_cons]
      rcases List.mem_append.mp member with inside | member
      · obtain ⟨visited', up'⟩ := ihChildren upX a inside
        exact ⟨visited', upward_mono up' (by omega)⟩
      rcases List.mem_cons.mp member with rfl | beside
      · exact ⟨visited, upward_mono upX (by omega)⟩
      · obtain ⟨visited', up'⟩ := ihSiblings up a beside
        exact ⟨visited', upward_mono up' (by omega)⟩

/-- **The way up from any object ends** within as many steps as there were objects. -/
theorem exists_upward (owned : Owned h root pending all) (cell : h.cells self = some o) :
    ∃ visited, h.upward (h.fresh + 1) (some self) = some visited := by
  have above : h.upward 1 none = some [] := rfl
  obtain ⟨visited, up⟩ := upward_of_held owned.account.forest above self
    (owned.account.mem_of_cell cell)
  have few := owned.account.length_le (List.Subset.refl all) owned.account.distinct
  exact ⟨visited, upward_mono up (by omega)⟩

/-- There is something to print of every object. -/
theorem exists_entryText (owned : Owned h root pending all) (cell : h.cells self = some o)
    (g : Getters ν) (withLong : Bool) (depth : Nat) :
    ∃ text, h.entryText g withLong self depth = some text := by
  obtain ⟨visited, up⟩ := owned.exists_upward cell
  obtain ⟨path, isPath⟩ := exists_getPath g.name up
  rw [entryText, isPath, cell]
  exact ⟨_, rfl⟩

/-- What is behind the parent of an object stays. -/
theorem parentValue_walked {touched : List Addr} (owned : Owned h root pending all)
    (walked : h.Walked h' touched) {o' : Obj ν} (cell : h.cells self = some o)
    (cell' : h'.cells self = some o') : h'.parentValue o' = h.parentValue o := by
  rw [parentValue, parentValue, walked.parents self o o' cell cell']
  cases parent : o.parent with
  | none => rfl
  | some p =>
      obtain ⟨q, cellP, -⟩ := owned.parent_live cell parent
      obtain ⟨q', cellP', impl, -⟩ := walked.keeps p q cellP
      exact valueAt_congr cellP cellP' impl

/-- **What is printed of an object stays**, whatever is walked later. -/
theorem entryText_walked {touched : List Addr} (owned : Owned h root pending all)
    (walked : h.Walked h' touched) (cell : h.cells self = some o) (g : Getters ν)
    (withLong : Bool) (depth : Nat) :
    h'.entryText g withLong self depth = h.entryText g withLong self depth := by
  obtain ⟨visited, up⟩ := owned.exists_upward cell
  have up' : h'.upward (h'.fresh + 1) (some self) = some visited :=
    upward_mono (walked.upward up) (Nat.succ_le_succ walked.later)
  obtain ⟨o', cell', impl, -⟩ := walked.keeps self o cell
  rw [entryText, entryText, getPath_congr up up' true true, cell, cell']
  simp only [Option.bind_eq_bind, Option.bind_some, impl,
    owned.parentValue_walked walked cell cell']

/-- What is reached downwards is reached upwards. -/
theorem up_of_down (owned : Owned h root pending all) {a b : Addr}
    (down : Relation.ReflTransGen (fun p c => c ∈ h.listed p) a b) :
    Relation.ReflTransGen (Parent h.links) b a := by
  refine Relation.ReflTransGen.mono ?_ b a (Relation.reflTransGen_swap.mpr down)
  intro c p member
  have member : c ∈ h.listed p := member
  rw [Heap.listed] at member
  split at member
  · next o cell =>
      split at member
      · obtain ⟨k, cellC, parent⟩ := owned.child_live cell member
        exact ⟨k.children, by rw [links_eq cellC, parent]⟩
      · cases member
  · cases member

/-- The chains of parents end. -/
theorem ends (owned : Owned h root pending all) (cell : h.cells self = some o) :
    Ends h.links self :=
  owned.account.forest.ends nofun self (owned.account.mem_of_cell cell)

/-- No object is visited twice. -/
theorem visits_nodup (owned : Owned h root pending all) (cell : h.cells self = some o)
    {depth : Nat} {items : List (Nat × Addr)} (visits : Visits h.listed depth [self] items) :
    (items.map Prod.snd).Nodup := by
  obtain ⟨p, cs, below, rest, links, held, perm, -⟩ :=
    owned.account.forest.focus (owned.account.mem_of_cell cell)
  have alone : Held h.links p [self] (below ++ [self]) := .cons links held (.nil _)
  have distinct : (below ++ self :: rest).Nodup := perm.nodup_iff.mp owned.account.distinct
  refine visits.nodup alone ?_ ?_
  · refine (List.Sublist.append_left ?_ below).nodup distinct
    exact (List.nil_sublist rest).cons_cons self
  · intro a q ds linksA
    obtain ⟨b, cellA, -, rfl⟩ := exists_cell linksA
    cases populated : b.populated with
    | true => exact .inl (Enumerated.listed cellA populated)
    | false => exact .inr (listed_of_not cellA populated)

end Owned

namespace Heap

variable {h h₁ h' : Heap ν} {g : Getters ν} {withLong : Bool}
  {populate : Heap ν → Addr → Populate ν} {depth : Nat} {as bs : List Addr}
  {items more : List (Nat × Addr)} {out text : Bytes}

/-- The lines for these objects. -/
def entries (h : Heap ν) (g : Getters ν) (withLong : Bool) (items : List (Nat × Addr)) :
    Option Bytes :=
  (items.mapM fun item => h.entryText g withLong item.2 item.1).map List.flatten

theorem entries_cons {item : Nat × Addr}
    (first : h.entryText g withLong item.2 item.1 = some text)
    (others : h.entries g withLong items = some out) :
    h.entries g withLong (item :: items) = some (text ++ out) := by
  obtain ⟨texts, eq, rfl⟩ := Option.map_eq_some_iff.mp others
  rw [entries, List.mapM_cons, first]
  simp only [Option.bind_eq_bind, Option.bind_some, eq, Option.pure_def, Option.map_some,
    List.flatten_cons]

theorem entries_append {rest : Bytes} (first : h.entries g withLong items = some out)
    (second : h.entries g withLong more = some rest) :
    h.entries g withLong (items ++ more) = some (out ++ rest) := by
  obtain ⟨texts, eq, rfl⟩ := Option.map_eq_some_iff.mp first
  obtain ⟨texts', eq', rfl⟩ := Option.map_eq_some_iff.mp second
  rw [entries, List.mapM_append, eq]
  simp only [Option.bind_eq_bind, Option.bind_some, eq', Option.pure_def, Option.map_some,
    List.flatten_append]

/-- The object was asked for its children: they are there, or its callback failed. -/
def Asked (populate : Heap ν → Addr → Populate ν) (h : Heap ν) (a : Addr) : Prop :=
  h.Enumerated a ∨ ∃ (before after : Heap ν) (e : Error),
    before.getChildren a (populate before a) = some (after, .error e)

/-- What was walked, in the tree as it is in the end: the subtrees of these objects were visited
in preorder, every object that was visited was asked for its children, and this is what was
printed. -/
structure Explored (g : Getters ν) (withLong : Bool) (populate : Heap ν → Addr → Populate ν)
    (h : Heap ν) (depth : Nat) (as : List Addr) (items : List (Nat × Addr)) (out : Bytes) :
    Prop where
  visits : Visits h.listed depth as items
  live : ∀ item ∈ items, h.Live item.2
  asked : ∀ item ∈ items, Asked populate h item.2
  prints : h.entries g withLong items = some out

theorem Asked.keeps {a : Addr} (asked : Asked populate h a) (keeps : h.Keeps h') :
    Asked populate h' a := by
  rcases asked with ⟨o, cell, populated⟩ | failed
  · exact .inl ⟨o, keeps.cells cell populated, populated⟩
  · exact .inr failed

end Heap

namespace Owned

open Heap

variable {h h₁ h' : Heap ν} {root self : Addr} {pending all : List Addr} {o : Obj ν}
  {g : Getters ν} {withLong : Bool} {populate : Heap ν → Addr → Populate ν} {depth : Nat}
  {as : List Addr} {items : List (Nat × Addr)} {out : Bytes}

/-- What is printed stays, whatever is walked later. -/
theorem entries_walked {touched : List Addr} (owned : Owned h root pending all)
    (walked : h.Walked h' touched) (live : ∀ item ∈ items, h.Live item.2) (g : Getters ν)
    (withLong : Bool) : h'.entries g withLong items = h.entries g withLong items := by
  refine congrArg (Option.map List.flatten) ?_
  induction items with
  | nil => rfl
  | cons item items ih =>
      obtain ⟨o, cell⟩ : ∃ o, h.cells item.2 = some o :=
        Option.isSome_iff_exists.mp (live item List.mem_cons_self)
      rw [List.mapM_cons, List.mapM_cons, owned.entryText_walked walked cell,
        ih fun item member => live item (List.mem_cons_of_mem _ member)]

/-- **What was walked stays as it is** when other objects are walked. -/
theorem explored_walked {touched : List Addr} (owned : Owned h root pending all)
    (walked : h.Walked h' touched) (explored : h.Explored g withLong populate depth as items out)
    (apart : ∀ a ∈ items.map Prod.snd, a ∉ touched) :
    h'.Explored g withLong populate depth as items out := by
  have lives {item : Nat × Addr} (member : item ∈ items) : ∃ o, h.cells item.2 = some o :=
    Option.isSome_iff_exists.mp (explored.live item member)
  refine ⟨explored.visits.congr ?_, ?_, ?_, ?_⟩
  · intro a member
    obtain ⟨item, isItem, rfl⟩ := List.mem_map.mp member
    obtain ⟨o, cell⟩ := lives isItem
    have old := owned.account.lt_fresh (owned.account.mem_of_cell cell)
    rw [Heap.listed, Heap.listed, walked.others _ (apart _ member) old]
  · intro item member
    obtain ⟨o, cell⟩ := lives member
    obtain ⟨o', cell', -⟩ := walked.keeps item.2 o cell
    exact Option.isSome_of_mem cell'
  · intro item member
    exact (explored.asked item member).keeps walked.keeps
  · rw [owned.entries_walked walked explored.live, explored.prints]

end Owned

/-! ## The walk ends -/

/-- A call whose callback creates only nodes of a lower rank than its own. -/
def Descends (rank : ν → Nat) (h : Heap ν) : Call ν → Prop
  | .refresh _ => True
  | .getChildren self p => ∀ v, h.valueAt self = some v → ∀ s ∈ p.spawns, rank s.value < rank v

/-- Every node has a lower rank than the node that is its parent, and ranks are bounded. -/
structure Ranked (rank : ν → Nat) (bound : Nat) (h : Heap ν) : Prop where
  child : ∀ a o v w, h.cells a = some o → o.impl = .node v → h.parentValue o = some w →
    rank v < rank w
  within : ∀ a v, h.valueAt a = some v → rank v ≤ bound

/-- **Calls that descend keep the ranks.** -/
theorem Ranked.call {rank : ν → Nat} {bound : Nat} {h h' : Heap ν} {root : Addr}
    {pending all : List Addr} {c : Call ν} (owned : Owned h root pending all)
    (live : h.Live c.self) (called : h.call c = some h') (descends : Descends rank h c)
    (ranked : Ranked rank bound h) : Ranked rank bound h' := by
  have steady := owned.call_steady live called
  obtain ⟨h₁, pending', all', called', owned'⟩ := owned.call live
  obtain rfl := Option.some.inj (called.symm.trans called')
  have newParent {self : Addr} {p : Populate ν} {v : ν} {s : Spawn ν}
      (isCall : c = .getChildren self p) (value : h.valueAt self = some v) :
      h'.parentValue (Heap.child self s.value) = some v := by
    subst isCall
    show h'.valueAt self = some v
    rw [← value]
    exact steady.own.2
  refine ⟨?_, ?_⟩
  · intro a o' v w cell' impl parentValue
    rcases owned.call_origin live called cell' with
      ⟨o, cell, isNode, parent⟩ | ⟨self, p, u, s, isCall, value, member, rfl⟩
    · rw [steady.parentValue owned owned' cell cell' parent] at parentValue
      exact ranked.child a o v w cell (isNode v impl) parentValue
    · rw [newParent isCall value] at parentValue
      obtain rfl := Option.some.inj parentValue
      obtain rfl := Impl.node.inj impl
      subst isCall
      exact descends u value s member
  · intro a v value
    obtain ⟨o', cell', impl⟩ := Heap.cell_of_valueAt value
    rcases owned.call_origin live called cell' with
      ⟨o, cell, isNode, -⟩ | ⟨self, p, u, s, isCall, valueSelf, member, rfl⟩
    · refine ranked.within a v ?_
      rw [Heap.valueAt, cell, Option.bind_some, isNode v impl]
    · obtain rfl := Impl.node.inj impl
      subst isCall
      exact Nat.le_of_lt (Nat.lt_of_lt_of_le (descends u valueSelf s member)
        (ranked.within self u valueSelf))

namespace Owned

open Heap

section Walks

variable {h h₁ h' : Heap ν} {root self : Addr} {pending all : List Addr} {o : Obj ν}
  {g : Getters ν} {withLong : Bool} {populate : Heap ν → Addr → Populate ν} {depth : Nat}
  {rank : ν → Nat} {bound : Nat}

/-- **A node is asked for its children**: nothing else changes. -/
theorem enumerates_node (owned : Owned h root pending all) (cell : h.cells self = some o) {v : ν}
    (impl : o.impl = .node v) (p : Populate ν) :
    ∃ h' result all', h.getChildren self p = some (h', result) ∧ Owned h' root pending all' ∧
      Lists h' self result ∧ h.Walked h' [self] := by
  cases populated : o.populated with
  | true =>
      refine ⟨h, _, all, getChildren_populated cell populated p, owned,
        ⟨⟨o, cell, populated⟩, Enumerated.listed cell populated⟩, ?_⟩
      have still := Walked.refl h
      exact ⟨still.keeps, still.parents, fun _ _ _ => rfl, still.later⟩
  | false =>
      obtain ⟨h', added, all', capacity, eq, owned', own, change⟩ :=
        owned.getChildren_node cell impl populated p rfl
      have old {a : Addr} {o₁ : Obj ν} (cell₁ : h.cells a = some o₁) : a < h.fresh :=
        owned.account.lt_fresh (owned.account.mem_of_cell cell₁)
      refine ⟨h', _, all', eq, owned', ?_, ?_, ?_, ?_, change.later⟩
      · generalize outcome p.grows p.result 0 o.children.length o.capacity p.spawns = made at *
        obtain ⟨values, ended⟩ := made
        cases ended with
        | ok => exact ⟨⟨_, own, rfl⟩, Enumerated.listed own rfl⟩
        | error e => exact listed_of_not own rfl
      · intro a o₁ cell₁
        by_cases isSelf : a = self
        · subst isSelf
          obtain rfl := Option.some.inj (cell.symm.trans cell₁)
          refine ⟨_, own, rfl, fun populated' => ?_⟩
          rw [populated] at populated'
          cases populated'
        · exact ⟨o₁, (change.others a isSelf (old cell₁)).trans cell₁, rfl, fun _ => rfl⟩
      · intro a o₁ o' cell₁ cell'
        by_cases isSelf : a = self
        · subst isSelf
          obtain rfl := Option.some.inj (cell.symm.trans cell₁)
          obtain rfl := Option.some.inj (own.symm.trans cell')
          rfl
        · have same := (change.others a isSelf (old cell₁)).trans cell₁
          rw [Option.some.inj (cell'.symm.trans same)]
      · intro a apart before
        exact change.others a (fun isSelf => apart (List.mem_singleton.mpr isSelf)) before

/-- The objects of a walk, and what it leaves, whatever the number of nested calls above this
one. -/
def Walks (g : Getters ν) (withLong : Bool) (populate : Heap ν → Addr → Populate ν)
    (rank : ν → Nat) (bound : Nat) (root : Addr) (pending : List Addr) (h : Heap ν) (depth : Nat)
    (as : List Addr) (walk : Nat → Option (Heap ν × Bytes)) (frames : Nat) : Prop :=
  ∃ h' out items all', (∀ more, frames ≤ more → walk more = some (h', out)) ∧
    Owned h' root pending all' ∧ Ranked rank bound h' ∧ h.Walked h' (items.map Prod.snd) ∧
      h'.Explored g withLong populate depth as items out

/-- **The children of an object are walked** one after the other, and no walk touches what
another visited. -/
theorem forChildren_walks {p : Addr} {frames : Nat}
    (walks : ∀ {h : Heap ν} {all : List Addr} {c : Addr} {k : Obj ν} {v : ν},
      Owned h root pending all → Ranked rank bound h → h.cells c = some k → k.impl = .node v →
        rank v < frames → Walks g withLong populate rank bound root pending h depth [c]
          (fun more => recurseSubtree g withLong populate more h c depth) frames)
    (cs : List Addr) (owned : Owned h root pending all) (ranked : Ranked rank bound h)
    (distinct : cs.Nodup)
    (children : ∀ c ∈ cs, ∃ k v, h.cells c = some k ∧ k.parent = some p ∧ k.impl = .node v ∧
      rank v < frames) :
    Walks g withLong populate rank bound root pending h depth cs (fun more => forChildren
      (fun h c => recurseSubtree g withLong populate more h c depth) cs h) frames := by
  induction cs generalizing h all with
  | nil =>
      refine ⟨h, [], [], all, fun _ _ => rfl, owned, ranked, .refl h, .nil depth, ?_, ?_, rfl⟩
      · intro item member
        cases member
      · intro item member
        cases member
  | cons c cs ih =>
      obtain ⟨notLater, distinct⟩ := List.nodup_cons.mp distinct
      obtain ⟨k, v, cell, parent, impl, low⟩ := children c List.mem_cons_self
      obtain ⟨h₁, first, items, all₁, eq, owned₁, ranked₁, walked, explored⟩ :=
        walks owned ranked cell impl low
      obtain ⟨h', others, more, all', eq', owned', ranked', walked', explored'⟩ :=
        ih owned₁ ranked₁ distinct (by
          intro d member
          obtain ⟨kd, w, cellD, parentD, implD, lowD⟩ :=
            children d (List.mem_cons_of_mem _ member)
          obtain ⟨kd', cellD', implD', -⟩ := walked.keeps d kd cellD
          exact ⟨kd', w, cellD', (walked.parents d kd kd' cellD cellD').trans parentD,
            implD'.trans implD, lowD⟩)
      have parents {d : Addr} (member : d ∈ c :: cs) : Parent h'.links d p := by
        obtain ⟨kd, w, cellD, parentD, -⟩ := children d member
        exact (walked.trans walked').parent ⟨kd.children, by rw [links_eq cellD, parentD]⟩
      -- An object below two of the children would have to be below one of them twice.
      have apart : ∀ a ∈ items.map Prod.snd, a ∉ more.map Prod.snd := by
        intro a inFirst inLater
        obtain ⟨c', isC, down⟩ := explored.visits.mem_iff.mp inFirst
        obtain rfl := List.mem_singleton.mp isC
        obtain ⟨d, member, down'⟩ := explored'.visits.mem_iff.mp inLater
        have upC : Relation.ReflTransGen (Parent h'.links) a c' :=
          Relation.ReflTransGen.mono (fun _ _ up => walked'.parent up) a c' (owned₁.up_of_down down)
        obtain ⟨ks, up⟩ := parents List.mem_cons_self
        obtain ⟨kc, cellC, isParent, -⟩ := exists_cell up
        obtain ⟨q, cellP, -⟩ := owned'.parent_live cellC isParent
        have same := siblings_apart (owned'.ends cellP) (parents List.mem_cons_self)
          (parents (List.mem_cons_of_mem _ member)) upC (owned'.up_of_down down')
        exact notLater (same ▸ member)
      have stays := owned₁.explored_walked walked' explored apart
      refine ⟨h', first ++ others, items ++ more, all', ?_, owned', ranked', ?_, ?_, ?_, ?_, ?_⟩
      · intro n enough
        have first := eq n enough
        have later := eq' n enough
        simp only [forChildren, Option.bind_eq_bind] at first later ⊢
        rw [first, Option.bind_some, later, Option.bind_some]
      · rw [List.map_append]
        exact walked.trans walked'
      · cases stays.visits with
        | cons inside none =>
            cases none
            rw [List.append_nil]
            exact .cons inside explored'.visits
      · intro item member
        exact (List.mem_append.mp member).elim (stays.live item) (explored'.live item)
      · intro item member
        exact (List.mem_append.mp member).elim (stays.asked item) (explored'.asked item)
      · exact entries_append stays.prints explored'.prints

/-- An object that was asked for its children is walked: what is printed of it comes first, then
what is printed of its children. -/
theorem recurse_of_listed {all₁ : List Addr} {frames : Nat} {text : Bytes}
    {result : Except Error (List Addr)} {o₁ : Obj ν}
    (walks : ∀ {h : Heap ν} {all : List Addr} {c : Addr} {k : Obj ν} {v : ν},
      Owned h root pending all → Ranked rank bound h → h.cells c = some k → k.impl = .node v →
        rank v < frames → Walks g withLong populate rank bound root pending h (depth + 1) [c]
          (fun more => recurseSubtree g withLong populate more h c (depth + 1)) frames)
    (entry : h.entryText g withLong self depth = some text)
    (called : h.getChildren self (populate h self) = some (h₁, result))
    (owned : Owned h₁ root pending all₁) (ranked : Ranked rank bound h₁)
    (cell : h₁.cells self = some o₁) (lists : Lists h₁ self result)
    (later : h₁.entryText g withLong self depth = some text)
    (low : ∀ c k v, h₁.cells c = some k → k.parent = some self → k.impl = .node v →
      rank v < frames) :
    ∃ h' out items all', (∀ more, frames + 1 ≤ more →
        recurseSubtree g withLong populate more h self depth = some (h', out)) ∧
      Owned h' root pending all' ∧ Ranked rank bound h' ∧ h₁.Walked h' (items.map Prod.snd) ∧
        h'.Explored g withLong populate depth [self] ((depth, self) :: items) out := by
  cases result with
  | error e =>
      have none : h₁.listed self = [] := lists
      refine ⟨h₁, text, [], all₁, ?_, owned, ranked, .refl h₁, .leaf none depth, ?_, ?_, ?_⟩
      · intro more enough
        obtain ⟨more, rfl⟩ : ∃ m, more = m + 1 := ⟨more - 1, by omega⟩
        rw [recurseSubtree, entry, called]
        rfl
      · intro item member
        obtain rfl := List.mem_singleton.mp member
        exact Option.isSome_of_mem cell
      · intro item member
        obtain rfl := List.mem_singleton.mp member
        exact .inr ⟨h, h₁, e, called⟩
      · have line : h₁.entries g withLong [(depth, self)] = some (text ++ []) :=
          entries_cons later rfl
        rw [line, List.append_nil]
  | ok cs =>
      obtain ⟨⟨o', cell', populated⟩, listed⟩ : h₁.Enumerated self ∧ h₁.listed self = cs := lists
      have children : o'.children = cs := by rw [← listed, Enumerated.listed cell' populated]
      have distinct : cs.Nodup := by
        rw [← children]
        exact owned.account.forest.nodup_children owned.account.distinct
          (owned.account.mem_of_cell cell') (links_eq cell')
      obtain ⟨h', out, items, all', eq, owned', ranked', walked, explored⟩ :=
        owned.forChildren_walks walks cs ranked distinct (by
          intro c member
          obtain ⟨k, cellC, parent⟩ := owned.child_live cell' (children ▸ member)
          have notRoot := (owned.listed_live (show c ∈ h₁.listed self from listed ▸ member)).1
          obtain ⟨v, impl⟩ := (owned.account.sound c k cellC).isNode notRoot
          exact ⟨k, v, cellC, parent, impl, low c k v cellC parent impl⟩)
      have own := walked.keeps.cells cell' populated
      have listed' : h'.listed self = cs := by rw [Enumerated.listed own populated, children]
      refine ⟨h', text ++ out, items, all', ?_, owned', ranked', walked, ?_, ?_, ?_, ?_⟩
      · intro more enough
        obtain ⟨more, rfl⟩ : ∃ m, more = m + 1 := ⟨more - 1, by omega⟩
        rw [recurseSubtree, entry, called]
        simp only [Option.bind_eq_bind, Option.bind_some]
        have visit := eq more (Nat.le_of_succ_le_succ enough)
        simp only at visit
        rw [visit, Option.bind_some]
      · have inside : Visits h'.listed (depth + 1) (h'.listed self) items := by
          rw [listed']
          exact explored.visits
        have visits := Visits.cons inside (.nil depth)
        rwa [List.append_nil] at visits
      · intro item member
        rcases List.mem_cons.mp member with rfl | below
        · exact Option.isSome_of_mem own
        · exact explored.live item below
      · intro item member
        rcases List.mem_cons.mp member with rfl | below
        · exact .inl ⟨o', own, populated⟩
        · exact explored.asked item below
      · refine entries_cons ?_ explored.prints
        rw [owned.entryText_walked walked cell' g withLong depth, later]

/-- **A node is walked** with as many nested calls as its rank needs. -/
theorem recurse_walks (g : Getters ν) (withLong : Bool) (depth : Nat)
    (creates : ∀ h a, Descends rank h (.getChildren a (populate h a))) (frames : Nat) {v : ν}
    (owned : Owned h root pending all) (ranked : Ranked rank bound h)
    (cell : h.cells self = some o) (impl : o.impl = .node v) (low : rank v < frames) :
    Walks g withLong populate rank bound root pending h depth [self]
      (fun more => recurseSubtree g withLong populate more h self depth) frames := by
  induction frames generalizing h self all o v depth with
  | zero => exact absurd low (Nat.not_lt_zero _)
  | succ frames ih =>
      obtain ⟨text, entry⟩ := owned.exists_entryText cell g withLong depth
      obtain ⟨h₁, result, all₁, called, owned₁, lists, walked₁⟩ :=
        owned.enumerates_node cell impl (populate h self)
      have ranked₁ : Ranked rank bound h₁ :=
        ranked.call (c := .getChildren self (populate h self)) owned (Option.isSome_of_mem cell)
          (by rw [Heap.call, called]; rfl) (creates h self)
      obtain ⟨o₁, cell₁, impl₁, -⟩ := walked₁.keeps self o cell
      obtain ⟨h', out, items, all', eq, owned', ranked', walked, explored⟩ :=
        recurse_of_listed (fun owned ranked cell impl low => ih _ owned ranked cell impl low) entry
          called owned₁ ranked₁ cell₁ lists
          ((owned.entryText_walked walked₁ cell g withLong depth).trans entry) (by
            intro c k w cellC parent implC
            have below := ranked₁.child c k w v cellC implC (by
              rw [parentValue, parent, Option.bind_some, valueAt, cell₁, Option.bind_some,
                impl₁, impl])
            omega)
      exact ⟨h', out, (depth, self) :: items, all', eq, owned', ranked', walked₁.trans walked,
        explored⟩

/-- What is printed of the root does not depend on the tree. -/
theorem entryText_root (g : Getters ν) (withLong : Bool) (depth : Nat)
    (cell : h.cells self = some o) {listed : List Addr}
    (impl : o.impl = .root listed) (parent : o.parent = none) :
    h.entryText g withLong self depth =
      some (g.entry withLong depth none (.root []) (.ok [slash])) := by
  have climbs : h.Climbs g.name (some self) [] := .root cell impl
  rw [entryText, climbs.getPath (Nat.succ_pos _), cell]
  simp only [Option.bind_eq_bind, Option.bind_some, parentValue, parent, impl]
  rfl

/-- **The root is walked**, and the transports that it hands over. -/
theorem recurse_root (g : Getters ν) (withLong : Bool) (depth : Nat)
    (creates : ∀ h a, Descends rank h (.getChildren a (populate h a)))
    (owned : Owned h root pending all) (ranked : Ranked rank bound h) :
    ∃ h' out items pending' all', (∀ more, bound + 2 ≤ more →
        recurseSubtree g withLong populate more h root depth = some (h', out)) ∧
      Owned h' root pending' all' ∧
        h'.Explored g withLong populate depth [root] ((depth, root) :: items) out := by
  obtain ⟨o, cell, impl⟩ := owned.listed
  obtain ⟨h₁, result, pending₁, all₁, called, owned₁, lists, -⟩ :=
    owned.enumerates cell (populate h root)
  have ranked₁ : Ranked rank bound h₁ :=
    ranked.call (c := .getChildren root (populate h root)) owned (Option.isSome_of_mem cell)
      (by rw [Heap.call, called]; rfl) (creates h root)
  have top {h : Heap ν} {pending all : List Addr} {o : Obj ν} (owned : Owned h root pending all)
      (cell : h.cells root = some o) : o.parent = none := by
    obtain ⟨cs, links⟩ := owned.account.forest.siblings_parent root List.mem_cons_self
    rw [links_eq cell] at links
    exact (Prod.mk.inj (Option.some.inj links)).1
  obtain ⟨o₁, cell₁, impl₁⟩ := owned₁.listed
  obtain ⟨h', out, items, all', eq, owned', -, -, explored⟩ :=
    recurse_of_listed
      (fun owned ranked cell impl low =>
        recurse_walks g withLong (depth + 1) creates (bound + 1) owned ranked cell impl low)
      (entryText_root g withLong depth cell impl (top owned cell)) called owned₁ ranked₁ cell₁ lists
      (entryText_root g withLong depth cell₁ impl₁ (top owned₁ cell₁)) (by
        intro c k v cellC parent implC
        refine Nat.lt_succ_of_le (ranked₁.within c v ?_)
        rw [valueAt, cellC, Option.bind_some, implC])
  exact ⟨h', out, items, pending₁, all', eq, owned', explored⟩

end Walks

end Owned

/-! ## The nodes of the repository -/

/-- Nodes below others have a lower rank. What is below a directory has a longer path, and paths
are bounded. -/
def Node.rank : Node → Nat
  | .attribute _ | .mcastGroup _ | .file _ _ _ _ => 0
  | .operation _ | .rtnlOp _ => 1
  | .family _ | .rtnlNamespace => 2
  | .genlNamespace => 3
  | .netlink => 4
  | .dir _ fsPath _ => pathMax - fsPath.length
  | .transport _ => pathMax

theorem Node.rank_le (v : Node) : v.rank ≤ pathMax := by
  cases v with
  | dir => exact Nat.sub_le _ _
  | transport => exact Nat.le_refl _
  | _ => exact Nat.le_of_ble_eq_true rfl

/-- What a directory has in it is ranked below it. -/
theorem rank_lt_of_entry {fs : Fs} {above displayName : CStr} {w : World} {name : CStr}
    {s : Spawn Node} (created : entrySpawn w fs above name = some s) :
    s.value.rank < (Node.dir fs above displayName).rank := by
  obtain ⟨fsPath, entry, fits, place⟩ := entrySpawn_placed displayName created
  have longer : above.length < fsPath.length := by
    rcases place with ⟨top, -⟩ | ⟨dirPath, shown, same, rfl⟩
    · cases top
    · obtain ⟨-, rfl, -⟩ := Node.dir.inj (Option.some.inj same)
      have slashed : (lit "/").length = 1 := by decide
      rw [List.length_append, List.length_append]
      omega
  generalize s.value = v at entry ⊢
  cases v with
  | dir fs' fsPath' displayName' =>
      obtain ⟨-, rfl, -⟩ := Prod.mk.inj (Option.some.inj entry)
      simp only [Node.rank]
      omega
  | file =>
      simp only [Node.rank]
      omega
  | _ => cases entry

/-- **In every world a callback creates only nodes of a lower rank.** -/
theorem Offers.descends {w : World} {parent : Option Node} {v : Node} {p : Populate Node}
    (offers : Offers w parent v p) {s : Spawn Node} (member : s ∈ p.spawns) :
    s.value.rank < v.rank := by
  have does := offers.does
  cases v with
  | dir fs fsPath displayName =>
      simp only at does
      split at does
      · rw [does.1] at member
        cases member
      · obtain ⟨listed, -, spawns, -⟩ := does
        rw [spawns] at member
        obtain ⟨name, -, created⟩ := List.mem_filterMap.mp member
        exact rank_lt_of_entry created
  | genlNamespace =>
      obtain ⟨t, env, families, -, -, spawns⟩ := does
      rw [spawns] at member
      obtain ⟨f, -, rfl⟩ := List.mem_map.mp member
      exact Nat.lt_succ_self 2
  | transport fs =>
      rw [does.1] at member
      obtain rfl := List.mem_singleton.mp member
      cases fs <;> decide
  | netlink =>
      rw [does.1] at member
      rcases List.mem_cons.mp member with rfl | member
      · exact Nat.lt_succ_self 3
      · obtain rfl := List.mem_singleton.mp member
        exact Nat.lt_add_of_pos_right (Nat.succ_pos 1)
  | family f =>
      rw [does.1] at member
      obtain ⟨child, -, rfl⟩ := List.mem_map.mp member
      cases child with
      | operation => exact Nat.lt_succ_self 1
      | mcastGroup => exact Nat.succ_pos 1
  | operation op =>
      rw [does.1] at member
      obtain ⟨a, -, rfl⟩ := List.mem_map.mp member
      exact Nat.succ_pos 0
  | rtnlNamespace =>
      rw [does.1] at member
      obtain ⟨op, -, rfl⟩ := List.mem_map.mp member
      exact Nat.lt_succ_self 1
  | rtnlOp op =>
      rw [does.1] at member
      obtain ⟨e, -, rfl⟩ := List.mem_map.mp member
      exact Nat.succ_pos 0
  | _ =>
      rw [does.1] at member
      cases member

/-- A call whose callback creates what it may create in some world, which need not be that of
the calls before. Without memory children may be missing. -/
def Heap.Sometime (h : Heap Node) : Call Node → Prop
  | .refresh _ => True
  | .getChildren self p => ∀ o v, h.cells self = some o → o.impl = .node v → ∀ s ∈ p.spawns,
      ∃ w offered, Offers w (h.parentValue o) v offered ∧ s ∈ offered.spawns

theorem Heap.Sometime.descends {h : Heap Node} {c : Call Node} (sometime : h.Sometime c) :
    Descends Node.rank h c := by
  cases c with
  | refresh self => trivial
  | getChildren self p =>
      intro v value s member
      obtain ⟨o, cell, impl⟩ := cell_of_valueAt value
      obtain ⟨w, offered, offers, isOffered⟩ := sometime o v cell impl s member
      exact offers.descends isOffered

/-- The ranks hold when the root was created. -/
theorem rootCreate_ranked (transports : List Node) :
    Ranked Node.rank pathMax (Heap.rootCreate transports).2 := by
  refine ⟨?_, fun _ v _ => v.rank_le⟩
  intro a o v w cell _ parentValue
  obtain ⟨impl, rfl, -⟩ := Heap.rootCreate_new cell
  cases parentValue

/-- **From every object of every tree `recurse_subtree` comes to an end**, with `PATH_MAX` and two
calls nested at most, whatever is on the disk and whatever the kernel answers meanwhile. In
the tree as it is in the end it has visited what is below the object in preorder, each
object once; every object was asked for its children, and every line is as it would be
printed now. -/
theorem recurseSubtree_explores {transports : List Node} {calls : List (Call Node)}
    {h : Heap Node} (along : Along Heap.Sometime calls (Heap.rootCreate transports).2)
    (ran : Heap.run calls (Heap.rootCreate transports).2 = some h) (g : Getters Node)
    (withLong : Bool) {populate : Heap Node → Addr → Populate Node}
    (creates : ∀ (h : Heap Node) a, h.Sometime (.getChildren a (populate h a))) {n : Addr}
    (live : h.Live n) (depth : Nat) :
    ∃ h' out items,
      (∀ frames, pathMax + 2 ≤ frames →
        Heap.recurseSubtree g withLong populate frames h n depth = some (h', out)) ∧
      h'.Explored g withLong populate depth [n] items out ∧ (items.map Prod.snd).Nodup ∧
        ∀ a, a ∈ items.map Prod.snd ↔ Relation.ReflTransGen (fun p c => c ∈ h'.listed p) n a := by
  obtain ⟨pending, created⟩ := rootCreate_owned transports
  obtain ⟨pending', all', owned, ranked⟩ := created.along_keeps
    (fun owned live called may ranked => Ranked.call owned live called may.descends ranked)
    (rootCreate_ranked transports) along ran
  have descends (h : Heap Node) (a : Addr) : Descends Node.rank h (.getChildren a (populate h a)) :=
    (creates h a).descends
  obtain ⟨o, cell⟩ : ∃ o, h.cells n = some o := Option.isSome_iff_exists.mp live
  have ended : ∃ h' out items pending' all',
      (∀ frames, pathMax + 2 ≤ frames →
        Heap.recurseSubtree g withLong populate frames h n depth = some (h', out)) ∧
      Owned h' (Heap.rootCreate transports).1 pending' all' ∧
        h'.Explored g withLong populate depth [n] items out := by
    by_cases isRoot : n = (Heap.rootCreate transports).1
    · subst isRoot
      obtain ⟨h', out, items, pending₁, all₁, eq, owned', explored⟩ :=
        owned.recurse_root g withLong depth descends ranked
      exact ⟨h', out, _, pending₁, all₁, eq, owned', explored⟩
    · obtain ⟨v, impl⟩ := (owned.account.sound n o cell).isNode isRoot
      obtain ⟨h', out, items, all₁, eq, owned', -, -, explored⟩ :=
        owned.recurse_walks g withLong depth descends (pathMax + 2) ranked cell impl
          (Nat.lt_of_le_of_lt v.rank_le (Nat.lt_add_of_pos_right (Nat.succ_pos 1)))
      exact ⟨h', out, items, pending', all₁, eq, owned', explored⟩
  obtain ⟨h', out, items, pending₁, all₁, eq, owned', explored⟩ := ended
  refine ⟨h', out, items, eq, explored, ?_, fun a => ?_⟩
  · have start : n ∈ items.map Prod.snd :=
      explored.visits.mem_iff.mpr ⟨n, List.mem_singleton_self n, .refl⟩
    obtain ⟨item, member, rfl⟩ := List.mem_map.mp start
    obtain ⟨o', cell'⟩ : ∃ o', h'.cells item.2 = some o' :=
      Option.isSome_iff_exists.mp (explored.live item member)
    exact owned'.visits_nodup cell' explored.visits
  · rw [explored.visits.mem_iff]
    simp

/-- The callbacks where every directory has a directory, as if it were found through a symbolic
link that leads back up. -/
def kernelCallbacks (h : Heap Node) (a : Addr) : Populate Node where
  spawns :=
    match h.valueAt a with
    | some (.dir fs fsPath _) => dirSpawns kernelWorld fs fsPath [lit "kernel"]
    | some v => v.spawns ((h.cells a).bind h.parentValue)
    | none => []
  result := .ok ()
  grows _ := true

theorem kernelCallbacks_sometime (h : Heap Node) (a : Addr) :
    h.Sometime (.getChildren a (kernelCallbacks h a)) := by
  intro o v cell impl s member
  have value : h.valueAt a = some v := by rw [Heap.valueAt, cell, Option.bind_some, impl]
  have above : (h.cells a).bind h.parentValue = h.parentValue o := by
    rw [cell, Option.bind_some]
  simp only [kernelCallbacks, value, above] at member
  cases v with
  | dir fs fsPath displayName =>
      refine ⟨kernelWorld, ⟨dirSpawns kernelWorld fs fsPath [lit "kernel"], .ok (), fun _ => true⟩,
        ⟨fun _ => rfl, ?_⟩, member⟩
      exact ⟨[lit "kernel"], .refl _, rfl, rfl⟩
  | genlNamespace => cases member
  | _ => exact ⟨kernelWorld, ⟨_, .ok (), fun _ => true⟩, ⟨fun _ => rfl, rfl, rfl⟩, member⟩

/-- Directories without end are walked to the end of their paths. -/
theorem kernel_explores :
    let g : Getters Node :=
      ⟨fun v => v.kind.kindName, nodeNames, fun _ => .ok [], fun _ _ => .ok []⟩
    ∃ h' out items,
      (∀ frames, pathMax + 2 ≤ frames → Heap.recurseSubtree g true kernelCallbacks frames
        (Heap.rootCreate [.transport .sys]).2 1 0 = some (h', out)) ∧
      h'.Explored g true kernelCallbacks 0 [1] items out ∧ (items.map Prod.snd).Nodup ∧
        ∀ a, a ∈ items.map Prod.snd ↔ Relation.ReflTransGen (fun p c => c ∈ h'.listed p) 1 a := by
  intro g
  have along : Along Heap.Sometime [] (Heap.rootCreate [Node.transport .sys]).2 := by
    trivial
  exact recurseSubtree_explores along rfl g true kernelCallbacks_sometime (by rfl) 0

end Ykern.Tree
