import Ykern.Tree.Objects
import Ykern.Foundation.Segments

/-!
# Paths

The path of an object is found upwards: its depth is counted, the names of the objects are
filled in from the last to the first, and the path is written to a buffer of the size that
was summed up. A path is resolved downwards: the children of the object reached so far are
searched for the next segment.

In a tree whose names are neither empty nor have a slash, and where siblings have different
names, an object is what its path is resolved to (`resolvePath_getPath`).
-/

set_option autoImplicit false

namespace Ykern.Tree

open Overlay

variable {ν : Type}

/-- The separator of paths. -/
def slash : UInt8 := 47

namespace Heap

/-- `ykern_ycore_object_get_name`: the root has an empty name, and a kind of node has its
own. -/
def getName (h : Heap ν) (names : ν → Except Error CStr) (a : Addr) :
    Option (Except Error CStr) := do
  let o ← h.cells a
  match o.impl with
  | .root _ => some (.ok [])
  | .node v => some (names v)

/-! ## The path of an object -/

/-- The first pass of `ykern_ycore_object_get_path`: how many objects there are up to the
root. -/
def countDepth (h : Heap ν) : Nat → Option Addr → Option Nat
  | 0, _ => none
  | _ + 1, none => some 0
  | steps + 1, some p => do
      let o ← h.cells p
      match o.impl with
      | .root _ => some 0
      | .node _ => do
          let depth ← h.countDepth steps o.parent
          some (depth + 1)

/-- The second pass: the names are filled in, downwards from the index. -/
def fillSegments (h : Heap ν) (names : ν → Except Error CStr) :
    Nat → Option Addr → Nat → List CStr → Option (Except Error (List CStr))
  | 0, _, _, _ => none
  | _ + 1, none, _, segments => some (.ok segments)
  | steps + 1, some p, idx, segments => do
      let o ← h.cells p
      match o.impl with
      | .root _ => some (.ok segments)
      | .node v =>
          match names v, idx with
          | .error e, _ => some (.error ("ykern_ycore_object_get_path: get_name failed" :: e))
          | .ok _, 0 => none
          | .ok name, idx + 1 => h.fillSegments names steps o.parent idx (segments.set idx name)

/-- Write to a buffer of this size, behind what is written. -/
def put (total : Nat) (buf piece : Bytes) : Option Bytes :=
  if buf.length + piece.length ≤ total then some (buf ++ piece) else none

/-- Write a segment, behind a slash. -/
def putSegment (total : Nat) (buf : Bytes) (seg : CStr) : Option Bytes := do
  let buf ← put total buf [slash]
  put total buf seg

/-- The last loop: write the segments to the buffer. -/
def putSegments (total : Nat) (segments : List CStr) : Option Bytes :=
  segments.foldlM (putSegment total) []

/-- `ykern_ycore_object_get_path`, with the results of `calloc` and `malloc`. -/
def getPath (h : Heap ν) (names : ν → Except Error CStr) (callocs mallocs : Bool) (steps : Nat)
    (self : Addr) : Option (Except Error CStr) := do
  let depth ← h.countDepth steps (some self)
  if depth = 0 then
    if mallocs then some (.ok [slash])
    else some (.error ["ykern_ycore_text_from_cstr: malloc failed"])
  else if callocs = false then
    some (.error ["ykern_ycore_object_get_path: calloc failed"])
  else
    match ← h.fillSegments names steps (some self) depth (List.replicate depth []) with
    | .error e => some (.error e)
    | .ok segments =>
        if mallocs = false then some (.error ["ykern_ycore_object_get_path: malloc failed"])
        else do
          let total := 1 + (segments.map fun seg => 1 + seg.length).sum
          let buf ← putSegments total segments
          let _ ← put total buf [0]
          some (.ok buf)

/-! ## Resolving a path -/

/-- `name_matches`, for these children until one does. -/
def findNamed (h : Heap ν) (names : ν → Except Error CStr) (want : CStr) :
    List Addr → Option (Option Addr)
  | [] => some none
  | c :: cs => do
      match ← h.getName names c with
      | .ok name => if name = want then some (some c) else h.findNamed names want cs
      | .error _ => h.findNamed names want cs

/-- `find_child`. -/
def findChild (h : Heap ν) (names : ν → Except Error CStr) (populate : Addr → Populate ν)
    (parent : Addr) (name : CStr) : Option (Heap ν × Option Addr) := do
  let (h, listed) ← h.getChildren parent (populate parent)
  match listed with
  | .error _ => some (h, none)
  | .ok children => do
      let child ← h.findNamed names name children
      some (h, child)

/-- What `resolve_path` returns, and what it writes. -/
structure Resolved where
  object : Option Addr
  deepest : Addr
  missing : Option CStr
  deriving DecidableEq

/-- The loop of `resolve_path`, from an object and with what is left of the path. -/
def resolveFrom (names : ν → Except Error CStr) (populate : Addr → Populate ν) (copied : Bool) :
    Nat → Heap ν → Addr → Bytes → Option (Heap ν × Resolved)
  | 0, _, _, _ => none
  | steps + 1, h, cur, rest =>
      match strtok slash rest with
      | none => some (h, ⟨some cur, cur, none⟩)
      | some (seg, rest) => do
          let (h, next) ← h.findChild names populate cur seg
          match next with
          | none => some (h, ⟨none, cur, if copied then some seg else none⟩)
          | some next => resolveFrom names populate copied steps h next rest

/-- `resolve_path`. The copies of the path and of the missing segment are made if `strdup`
succeeds. -/
def resolvePath (h : Heap ν) (names : ν → Except Error CStr) (populate : Addr → Populate ν)
    (strdups copied : Bool) (root : Addr) (path : Option CStr) : Option (Heap ν × Resolved) :=
  match path with
  | none => some (h, ⟨some root, root, none⟩)
  | some path =>
      if path = [] ∨ path = [slash] then some (h, ⟨some root, root, none⟩)
      else if strdups = false then some (h, ⟨none, root, none⟩)
      else resolveFrom names populate copied (path.length + 1) h root path

/-! ## Trees with names -/

/-- The objects of a tree: the root, and the children of those in the tree. -/
inductive InTree (h : Heap ν) (root : Addr) : Addr → Prop where
  | root : InTree h root root
  | child {p c : Addr} {o : Obj ν} (parent : InTree h root p) (cell : h.cells p = some o)
      (member : c ∈ o.children) : InTree h root c

/-- A tree whose names make paths: names are there, not empty and without a slash, siblings
have different names, and the children that are there are those that are listed. -/
structure Named (h : Heap ν) (names : ν → Except Error CStr) (root : Addr) : Prop where
  isRoot : ∃ o listed, h.cells root = some o ∧ o.impl = .root listed
  child : ∀ p o c, h.InTree root p → h.cells p = some o → c ∈ o.children →
    ∃ k v name, h.cells c = some k ∧ k.parent = some p ∧ k.impl = .node v ∧
      names v = .ok name ∧ name ≠ [] ∧ slash ∉ name
  distinct : ∀ p o, h.InTree root p → h.cells p = some o →
    (o.children.map (h.getName names)).Nodup
  stable : ∀ p o, h.InTree root p → h.cells p = some o → o.children ≠ [] → o.populated = true

/-- The names on the way from the root to an object. -/
inductive Leads (h : Heap ν) (names : ν → Except Error CStr) (root : Addr) :
    Addr → List CStr → Prop where
  | root : Leads h names root root []
  | child {p c : Addr} {o k : Obj ν} {v : ν} {segs : List CStr} {name : CStr}
      (leads : Leads h names root p segs) (cell : h.cells p = some o) (member : c ∈ o.children)
      (cellChild : h.cells c = some k) (parent : k.parent = some p) (impl : k.impl = .node v)
      (named : names v = .ok name) (nonempty : name ≠ []) (clean : slash ∉ name) :
      Leads h names root c (segs ++ [name])

variable {h : Heap ν} {names : ν → Except Error CStr} {root n : Addr} {segs : List CStr}

theorem Leads.eq_root (leads : h.Leads names root n []) : n = root := by
  generalize none : ([] : List CStr) = segs at leads
  cases leads with
  | root => rfl
  | child => exact absurd none (List.append_ne_nil_of_right_ne_nil _ (List.cons_ne_nil _ _)).symm

/-- The last name of a way is not empty. -/
theorem Leads.joined_ne (leads : h.Leads names root n segs) (notRoot : segs ≠ []) :
    joined slash segs ≠ [] ∧ joined slash segs ≠ [slash] := by
  cases leads with
  | root => exact absurd rfl notRoot
  | @child p c o k v segs name _ _ _ _ _ _ _ nonempty _ =>
      have positive := List.length_pos_of_ne_nil nonempty
      have long : 2 ≤ (joined slash (segs ++ [name])).length := by
        rw [length_joined, List.map_append, List.sum_append]
        simp only [List.map_cons, List.map_nil, List.sum_cons, List.sum_nil]
        omega
      constructor
      · intro same
        rw [same, List.length_nil] at long
        omega
      · intro same
        rw [same, List.length_singleton] at long
        omega

theorem Leads.inTree (leads : h.Leads names root n segs) : h.InTree root n := by
  induction leads with
  | root => exact .root
  | child _ cell member _ _ _ _ _ _ ih => exact .child ih cell member

/-- There is a way to every object of the tree. -/
theorem Named.leads (named : h.Named names root) (inTree : h.InTree root n) :
    ∃ segs, h.Leads names root n segs := by
  induction inTree with
  | root => exact ⟨[], .root⟩
  | @child p c o parent cell member ih =>
      obtain ⟨segs, leads⟩ := ih
      obtain ⟨k, v, name, cellC, parentC, impl, isNamed, nonempty, clean⟩ :=
        named.child p o c parent cell member
      exact ⟨segs ++ [name], .child leads cell member cellC parentC impl isNamed nonempty clean⟩

/-! ## Upwards -/

/-- The names on the way up from an object to the root, or to an object without a parent; the
last is that of the object. -/
inductive Climbs (h : Heap ν) (names : ν → Except Error CStr) : Option Addr → List CStr → Prop where
  | above : Climbs h names none []
  | root {r : Addr} {o : Obj ν} {listed : List Addr} (cell : h.cells r = some o)
      (impl : o.impl = .root listed) : Climbs h names (some r) []
  | node {a : Addr} {o : Obj ν} {v : ν} {name : CStr} {segs : List CStr}
      (cell : h.cells a = some o) (impl : o.impl = .node v) (named : names v = .ok name)
      (climbs : Climbs h names o.parent segs) : Climbs h names (some a) (segs ++ [name])

variable {start : Option Addr}

/-- The depth of an object is the number of names on the way. -/
theorem Climbs.countDepth (climbs : h.Climbs names start segs) {steps : Nat}
    (enough : segs.length < steps) : h.countDepth steps start = some segs.length := by
  induction climbs generalizing steps with
  | above =>
      obtain ⟨steps, rfl⟩ := Nat.exists_eq_add_of_lt enough
      rfl
  | root cell impl =>
      obtain ⟨steps, rfl⟩ := Nat.exists_eq_add_of_lt enough
      simp [Heap.countDepth, cell, impl]
  | node cell impl _ _ ih =>
      obtain ⟨steps, rfl⟩ : ∃ s, steps = s + 1 := ⟨steps - 1, by omega⟩
      rw [List.length_append, List.length_singleton] at enough ⊢
      simp [Heap.countDepth, cell, impl, ih (Nat.lt_of_succ_lt_succ enough)]

/-- The names on the way are filled in. -/
theorem Climbs.fillSegments (climbs : h.Climbs names start segs) {steps : Nat}
    (enough : segs.length < steps) {segments : List CStr} (room : segs.length ≤ segments.length) :
    h.fillSegments names steps start segs.length segments =
      some (.ok (segs ++ segments.drop segs.length)) := by
  induction climbs generalizing steps segments with
  | above =>
      obtain ⟨steps, rfl⟩ := Nat.exists_eq_add_of_lt enough
      rfl
  | root cell impl =>
      obtain ⟨steps, rfl⟩ := Nat.exists_eq_add_of_lt enough
      simp [Heap.fillSegments, cell, impl]
  | @node a o v name segs cell impl isNamed _ ih =>
      obtain ⟨steps, rfl⟩ : ∃ s, steps = s + 1 := ⟨steps - 1, by omega⟩
      rw [List.length_append, List.length_singleton] at enough room ⊢
      simp only [Heap.fillSegments, cell, Option.bind_eq_bind, Option.bind_some, impl, isNamed]
      rw [ih (Nat.lt_of_succ_lt_succ enough) (by rw [List.length_set]; omega)]
      have filled : (segments.set segs.length name).drop segs.length =
          name :: segments.drop (segs.length + 1) := by
        rw [List.drop_set, if_neg (Nat.lt_irrefl _), Nat.sub_self,
          List.drop_eq_getElem_cons (Nat.lt_of_succ_le room), List.set_cons_zero]
      rw [filled, List.append_assoc, List.singleton_append]

theorem put_eq {total : Nat} {buf piece : Bytes} (room : buf.length + piece.length ≤ total) :
    put total buf piece = some (buf ++ piece) :=
  if_pos room

/-- Writing the segments takes the size that was summed up. -/
theorem foldlM_putSegment {total : Nat} (segments : List CStr) {buf : Bytes}
    (room : buf.length + (joined slash segments).length ≤ total) :
    segments.foldlM (putSegment total) buf = some (buf ++ joined slash segments) := by
  induction segments generalizing buf with
  | nil =>
      rw [List.foldlM_nil, joined, List.flatMap_nil, List.append_nil]
      rfl
  | cons seg segments ih =>
      rw [joined_cons, List.length_cons, List.length_append] at room
      have written : putSegment total buf seg = some (buf ++ slash :: seg) := by
        rw [putSegment, put_eq (by rw [List.length_singleton]; omega), Option.bind_eq_bind,
          Option.bind_some, put_eq (by rw [List.length_append, List.length_singleton]; omega),
          List.append_assoc, List.singleton_append]
      rw [List.foldlM_cons, written, Option.bind_eq_bind, Option.bind_some, ih, joined_cons,
        List.append_assoc, List.cons_append]
      rw [List.length_append, List.length_cons]
      omega

/-- **The path of an object** is the names on the way, each behind a slash. -/
theorem Climbs.getPath (climbs : h.Climbs names (some n) segs) {steps : Nat}
    (enough : segs.length < steps) :
    h.getPath names true true steps n =
      some (.ok (if segs = [] then [slash] else joined slash segs)) := by
  have filled : h.fillSegments names steps (some n) segs.length (List.replicate segs.length []) =
      some (.ok segs) := by
    rw [climbs.fillSegments enough (by rw [List.length_replicate]), List.drop_replicate,
      Nat.sub_self, List.replicate_zero, List.append_nil]
  rw [Heap.getPath, climbs.countDepth enough]
  simp only [Option.bind_eq_bind, Option.bind_some, List.length_eq_zero_iff]
  by_cases isRoot : segs = []
  · rw [if_pos isRoot, if_pos isRoot]
    rfl
  · have size : (joined slash segs).length = (segs.map fun seg : CStr => 1 + seg.length).sum :=
      length_joined segs
    rw [if_neg isRoot, if_neg isRoot, if_neg Bool.noConfusion, filled]
    simp only [Option.bind_some, if_neg (show ¬true = false from Bool.noConfusion), putSegments]
    rw [foldlM_putSegment segs (by rw [List.length_nil]; omega), Option.bind_some, List.nil_append,
      put_eq (by rw [List.length_singleton]; omega), Option.bind_some]

/-- The names on the way from the root are those on the way up. -/
theorem Leads.climbs (named : h.Named names root) (leads : h.Leads names root n segs) :
    h.Climbs names (some n) segs := by
  induction leads with
  | root =>
      obtain ⟨o, listed, cell, impl⟩ := named.isRoot
      exact .root cell impl
  | child _ _ _ cellC parentC impl isNamed _ _ ih =>
      refine .node cellC impl isNamed ?_
      rw [parentC]
      exact ih

/-! ## Downwards -/

/-- The child with a name is found. -/
theorem findNamed_eq {c : Addr} {name : CStr} {children : List Addr} (member : c ∈ children)
    (isNamed : h.getName names c = some (.ok name))
    (others : ∀ d ∈ children, ∃ s, h.getName names d = some (.ok s) ∧ (s = name → d = c)) :
    h.findNamed names name children = some (some c) := by
  induction children with
  | nil => cases member
  | cons d children ih =>
      obtain ⟨s, nameD, only⟩ := others d List.mem_cons_self
      simp only [Heap.findNamed, nameD, Option.bind_eq_bind, Option.bind_some]
      by_cases same : s = name
      · rw [if_pos same, only same]
      · rw [if_neg same]
        refine ih ?_ fun e member => others e (List.mem_cons_of_mem _ member)
        rcases List.mem_cons.mp member with rfl | behind
        · rw [isNamed] at nameD
          exact absurd (Except.ok.inj (Option.some.inj nameD)).symm same
        · exact behind

/-- **The child on the way is found**, and nothing is changed. -/
theorem Leads.findChild (named : h.Named names root) {p c : Addr} {o k : Obj ν} {v : ν}
    {name : CStr} (leads : h.Leads names root p segs) (cell : h.cells p = some o)
    (member : c ∈ o.children) (cellC : h.cells c = some k) (impl : k.impl = .node v)
    (isNamed : names v = .ok name) (populate : Addr → Populate ν) :
    h.findChild names populate p name = some (h, some c) := by
  have nameOf {d : Addr} {k : Obj ν} {v : ν} (cell : h.cells d = some k)
      (impl : k.impl = .node v) : h.getName names d = some (names v) := by
    rw [Heap.getName, cell, Option.bind_eq_bind, Option.bind_some, impl]
  have nameC : h.getName names c = some (.ok name) := by
    rw [nameOf cellC impl, isNamed]
  have listed : h.getChildren p (populate p) = some (h, .ok o.children) := by
    rw [Heap.getChildren, cell]
    simp only [Option.bind_eq_bind, Option.bind_some]
    rw [if_pos (named.stable p o leads.inTree cell (List.ne_nil_of_mem member))]
  have found : h.findNamed names name o.children = some (some c) := by
    refine findNamed_eq member nameC fun d memberD => ?_
    obtain ⟨k', v', s, cellD, -, implD, nameD, -, -⟩ :=
      named.child p o d leads.inTree cell memberD
    refine ⟨s, by rw [nameOf cellD implD, nameD], fun same => ?_⟩
    refine List.inj_on_of_nodup_map (named.distinct p o leads.inTree cell) memberD member ?_
    rw [nameC, nameOf cellD implD, nameD, same]
  rw [Heap.findChild, listed]
  simp only [Option.bind_eq_bind, Option.bind_some, found]

/-- **Resolving the names on the way** leads to the object, with the rest of the path to
come. -/
theorem Leads.resolveFrom (named : h.Named names root) (leads : h.Leads names root n segs)
    (populate : Addr → Populate ν) (copied : Bool) {more : List CStr} {text : Bytes} {steps : Nat}
    (remaining : Remaining slash (segs ++ more) text) (enough : text.length < steps) :
    ∃ text' steps', Remaining slash more text' ∧ text'.length < steps' ∧
      resolveFrom names populate copied steps h root text =
        resolveFrom names populate copied steps' h n text' := by
  induction leads generalizing more text steps with
  | root => exact ⟨text, steps, remaining, enough, rfl⟩
  | @child p c o k v segs name leads cell member cellC parentC impl isNamed nonempty clean ih =>
      rw [List.append_assoc, List.singleton_append] at remaining
      obtain ⟨text₁, steps₁, remaining₁, enough₁, eq₁⟩ := ih remaining enough
      obtain ⟨rest, token, remaining', shorter⟩ := strtok_remaining remaining₁ nonempty clean
      obtain ⟨steps', rfl⟩ : ∃ s, steps₁ = s + 1 := ⟨steps₁ - 1, by omega⟩
      refine ⟨rest, steps', remaining', by omega, eq₁.trans ?_⟩
      rw [Heap.resolveFrom, token]
      simp only [leads.findChild named cell member cellC impl isNamed populate,
        Option.bind_eq_bind, Option.bind_some]

/-- **An object is what its path is resolved to.** -/
theorem resolvePath_getPath (named : h.Named names root) (inTree : h.InTree root n)
    (populate : Addr → Populate ν) (copied : Bool) :
    ∃ path enough, (∀ steps, enough ≤ steps → h.getPath names true true steps n = some (.ok path)) ∧
      h.resolvePath names populate true copied root (some path) =
        some (h, { object := some n, deepest := n, missing := none }) := by
  obtain ⟨segs, leads⟩ := named.leads inTree
  refine ⟨_, segs.length + 1, fun steps enough => (leads.climbs named).getPath enough, ?_⟩
  by_cases isRoot : segs = []
  · -- The path of the root is a slash, which is not resolved further.
    subst isRoot
    obtain rfl := leads.eq_root
    rw [if_pos rfl, Heap.resolvePath, if_pos (Or.inr rfl)]
  · have toCome : Remaining slash (segs ++ []) (joined slash segs) := by
      rw [List.append_nil]
      exact .inl rfl
    obtain ⟨rest, steps, remaining, enough, eq⟩ :=
      leads.resolveFrom named populate copied toCome (Nat.lt_succ_self _)
    obtain ⟨steps, rfl⟩ : ∃ s, steps = s + 1 := ⟨steps - 1, by omega⟩
    rw [if_neg isRoot, Heap.resolvePath, if_neg (not_or.mpr (leads.joined_ne isRoot)),
      if_neg Bool.noConfusion, eq, Heap.resolveFrom, strtok_remaining_nil remaining]

/-- A root with one transport, which has two namespaces. -/
def genlTree : Heap CStr where
  cells
    | 0 => some ⟨.node (lit "netlink"), some 1, [3, 2], 8, true⟩
    | 1 => some ⟨.root [], none, [0], 8, true⟩
    | 2 => some ⟨.node (lit "genl"), some 0, [], 0, false⟩
    | 3 => some ⟨.node (lit "route"), some 0, [], 0, false⟩
    | _ => none
  fresh := 4
  destroyed := []

theorem genlTree_named : genlTree.Named .ok 1 := by
  have objects {a : Addr} {o : Obj CStr} (cell : genlTree.cells a = some o) :
      (a = 0 ∧ o = ⟨.node (lit "netlink"), some 1, [3, 2], 8, true⟩) ∨
        (a = 1 ∧ o = ⟨.root [], none, [0], 8, true⟩) ∨
        (a = 2 ∧ o = ⟨.node (lit "genl"), some 0, [], 0, false⟩) ∨
        (a = 3 ∧ o = ⟨.node (lit "route"), some 0, [], 0, false⟩) := by
    match a, cell with
    | 0, rfl => exact .inl ⟨rfl, rfl⟩
    | 1, rfl => exact .inr (.inl ⟨rfl, rfl⟩)
    | 2, rfl => exact .inr (.inr (.inl ⟨rfl, rfl⟩))
    | 3, rfl => exact .inr (.inr (.inr ⟨rfl, rfl⟩))
  refine ⟨⟨_, [], rfl, rfl⟩, ?_, ?_, ?_⟩
  · intro p o c _ cell member
    rcases objects cell with ⟨rfl, rfl⟩ | ⟨rfl, rfl⟩ | ⟨rfl, rfl⟩ | ⟨rfl, rfl⟩
    · rcases List.mem_pair.mp member with rfl | rfl
      · exact ⟨_, _, _, rfl, rfl, rfl, rfl, by decide, by decide⟩
      · exact ⟨_, _, _, rfl, rfl, rfl, rfl, by decide, by decide⟩
    · obtain rfl := List.mem_singleton.mp member
      exact ⟨_, _, _, rfl, rfl, rfl, rfl, by decide, by decide⟩
    · cases member
    · cases member
  · intro p o _ cell
    rcases objects cell with ⟨rfl, rfl⟩ | ⟨rfl, rfl⟩ | ⟨rfl, rfl⟩ | ⟨rfl, rfl⟩
    · decide
    · exact List.nodup_singleton _
    · exact List.nodup_nil
    · exact List.nodup_nil
  · intro p o _ cell children
    rcases objects cell with ⟨rfl, rfl⟩ | ⟨rfl, rfl⟩ | ⟨rfl, rfl⟩ | ⟨rfl, rfl⟩
    · rfl
    · rfl
    · exact absurd rfl children
    · exact absurd rfl children

/-- The namespace that is listed last is found by its path. -/
theorem resolvePath_genl : ∃ path enough,
    (∀ steps, enough ≤ steps → genlTree.getPath .ok true true steps 2 = some (.ok path)) ∧
      genlTree.resolvePath .ok (fun _ => ⟨[], .ok (), fun _ => true⟩) true true 1 (some path) =
        some (genlTree, { object := some 2, deepest := 2, missing := none }) :=
  resolvePath_getPath genlTree_named
    (.child (.child .root rfl List.mem_cons_self) rfl
      (List.mem_cons_of_mem _ List.mem_cons_self)) _ true

end Heap

end Ykern.Tree
