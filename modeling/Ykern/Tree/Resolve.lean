import Ykern.Foundation.Keyed
import Ykern.Tree.Calls
import Ykern.Tree.Path

/-!
# What a path is resolved to

A path is resolved segment by segment, however many slashes are around them
(`resolvePath_eq`). Each step enumerates the object reached so far and goes on to its first
child with the name, and the steps that follow change nothing of what was enumerated
(`Keeps`). So in the tree as resolving leaves it the object is found by following the first
child with the name of each segment, or the first segment without such a child is the
missing one (`resolvePath_resolves`).
-/

set_option autoImplicit false

namespace Ykern.Tree

open Overlay

variable {ν : Type}

/-- The segments of a path, which are none if there is no path. -/
def pathSegments (path : Option CStr) : List CStr := segments slash (path.getD [])

namespace Heap

/-! ## Following names -/

/-- The children of the object are there. -/
def Enumerated (h : Heap ν) (a : Addr) : Prop := ∃ o, h.cells a = some o ∧ o.populated = true

/-- The children of an object. One that was not enumerated counts as having none. -/
def listed (h : Heap ν) (a : Addr) : List Addr :=
  match h.cells a with
  | some o => if o.populated then o.children else []
  | none => []

/-- The name of an object, if its getter returns one. -/
def nameOf (h : Heap ν) (names : ν → Except Error CStr) (a : Addr) : Option CStr :=
  match h.getName names a with
  | some (.ok name) => some name
  | _ => none

/-- The first child with a name. -/
def childNamed (h : Heap ν) (names : ν → Except Error CStr) (parent : Addr) (want : CStr) :
    Option Addr :=
  (h.listed parent).find? fun c => h.nameOf names c == some want

/-- These are the names on the way down to an object. -/
inductive Spells (h : Heap ν) (names : ν → Except Error CStr) (root : Addr) :
    List CStr → Addr → Prop where
  | root : Spells h names root [] root
  | child {p c : Addr} {segs : List CStr} {name : CStr} (spells : Spells h names root segs p)
      (member : c ∈ h.listed p) (named : h.nameOf names c = some name) :
      Spells h names root (segs ++ [name]) c

/-- The segments are resolved, in a tree that is left so: the first child with the name of each
is followed. Where an object has a child to be found, it was enumerated, or that failed. -/
structure Resolves (h : Heap ν) (names : ν → Except Error CStr) (populate : Addr → Populate ν)
    (start : Addr) (segs : List CStr) (r : Resolved) : Prop where
  outcome :
    (∃ n, segs.foldlM (h.childNamed names) start = some n ∧ r = ⟨some n, n, none⟩) ∨
      ∃ found missing rest n, segs = found ++ missing :: rest ∧
        found.foldlM (h.childNamed names) start = some n ∧ h.childNamed names n missing = none ∧
          r = ⟨none, n, some missing⟩
  enumerated : ∀ found seg rest n, segs = found ++ seg :: rest →
    found.foldlM (h.childNamed names) start = some n →
      h.Enumerated n ∨
        ∃ (before : Heap ν) (e : Error), before.getChildren n (populate n) = some (h, .error e)

/-- What is enumerated stays as it is, and all objects keep what is behind their bases. -/
def Keeps (h h' : Heap ν) : Prop :=
  ∀ a o, h.cells a = some o → ∃ o', h'.cells a = some o' ∧ o'.impl = o.impl ∧
    (o.populated = true → o' = o)

variable {h h₁ h' : Heap ν} {names : ν → Except Error CStr} {populate : Addr → Populate ν}
  {root n : Addr} {segs : List CStr}

theorem Keeps.refl (h : Heap ν) : h.Keeps h := fun _ o cell => ⟨o, cell, rfl, fun _ => rfl⟩

theorem Keeps.trans (first : h.Keeps h₁) (second : h₁.Keeps h') : h.Keeps h' := by
  intro a o cell
  obtain ⟨o₁, cell₁, impl₁, same₁⟩ := first a o cell
  obtain ⟨o', cell', impl', same'⟩ := second a o₁ cell₁
  refine ⟨o', cell', impl'.trans impl₁, fun populated => ?_⟩
  obtain rfl := same₁ populated
  exact same' populated

theorem Keeps.cells (keeps : h.Keeps h') {a : Addr} {o : Obj ν} (cell : h.cells a = some o)
    (populated : o.populated = true) : h'.cells a = some o := by
  obtain ⟨o', cell', -, same⟩ := keeps a o cell
  rw [cell', same populated]

theorem Keeps.nameOf (keeps : h.Keeps h') {a : Addr} (live : h.Live a) :
    h'.nameOf names a = h.nameOf names a := by
  obtain ⟨o, cell⟩ : ∃ o, h.cells a = some o := Option.isSome_iff_exists.mp live
  obtain ⟨o', cell', impl, -⟩ := keeps a o cell
  have same : h'.getName names a = h.getName names a := by
    rw [Heap.getName, Heap.getName, cell, cell']
    simp only [Option.bind_eq_bind, Option.bind_some, impl]
  rw [Heap.nameOf, Heap.nameOf, same]

theorem Enumerated.listed {a : Addr} {o : Obj ν} (cell : h.cells a = some o)
    (populated : o.populated = true) : h.listed a = o.children := by
  simp [Heap.listed, cell, populated]

theorem listed_of_not {a : Addr} {o : Obj ν} (cell : h.cells a = some o)
    (empty : o.populated = false) : h.listed a = [] := by
  simp [Heap.listed, cell, empty]

/-- There is no child for the first segment. -/
theorem Resolves.missing {seg : CStr} (none : h.childNamed names root seg = none)
    (enumerated : h.Enumerated root ∨
      ∃ (before : Heap ν) (e : Error), before.getChildren root (populate root) = some (h, .error e)) :
    h.Resolves names populate root (seg :: segs) ⟨.none, root, some seg⟩ := by
  refine ⟨.inr ⟨[], seg, segs, root, rfl, rfl, none, rfl⟩, ?_⟩
  intro found other rest n split reached
  cases found with
  | nil =>
      obtain rfl := Option.some.inj reached
      exact enumerated
  | cons front found =>
      obtain ⟨rfl, -⟩ := List.cons.inj split
      rw [List.foldlM_cons, none] at reached
      cases reached

/-- There is a child for the first segment, and the others are resolved from it. -/
theorem Resolves.step {seg : CStr} {next : Addr} {r : Resolved}
    (first : h.childNamed names root seg = some next) (enumerated : h.Enumerated root)
    (rest : h.Resolves names populate next segs r) :
    h.Resolves names populate root (seg :: segs) r := by
  have through (found : List CStr) : (seg :: found).foldlM (h.childNamed names) root =
      found.foldlM (h.childNamed names) next := by
    rw [List.foldlM_cons, first]
    rfl
  refine ⟨?_, ?_⟩
  · rcases rest.outcome with ⟨n, reached, result⟩ |
      ⟨found, missing, behind, n, split, reached, none, result⟩
    · exact .inl ⟨n, (through segs).trans reached, result⟩
    · exact .inr ⟨seg :: found, missing, behind, n, by rw [split, List.cons_append],
        (through found).trans reached, none, result⟩
  · intro found other behind n split reached
    cases found with
    | nil =>
        obtain rfl := Option.some.inj reached
        exact .inl enumerated
    | cons front found =>
        obtain ⟨rfl, split'⟩ := List.cons.inj split
        exact rest.enumerated found other behind n split' ((through found).symm.trans reached)

/-- **Where siblings have different names the names on the way down are followed.** -/
theorem Spells.followed (distinct : ∀ p, ((h.listed p).filterMap (h.nameOf names)).Nodup)
    (spells : h.Spells names root segs n) : segs.foldlM (h.childNamed names) root = some n := by
  induction spells with
  | root => rfl
  | @child p c segs name _ member named ih =>
      have first : h.childNamed names p name = some c :=
        (find?_key_eq_some_iff (uniqueAt_of_nodup_filterMap (distinct p) name)).mpr ⟨member, named⟩
      rw [List.foldlM_append, ih, Option.bind_eq_bind, Option.bind_some, List.foldlM_cons, first]
      rfl

/-- What is followed to its end is what is resolved. -/
theorem Resolves.of_followed {r : Resolved} (resolves : h.Resolves names populate root segs r)
    (followed : segs.foldlM (h.childNamed names) root = some n) : r = ⟨some n, n, none⟩ := by
  rcases resolves.outcome with ⟨m, reached, rfl⟩ | ⟨found, missing, rest, m, rfl, reached, none, -⟩
  · obtain rfl := Option.some.inj (reached.symm.trans followed)
    rfl
  · rw [List.foldlM_append, reached, Option.bind_eq_bind, Option.bind_some, List.foldlM_cons,
      none] at followed
    cases followed

/-- `find_child` searches for the first child with the name. -/
theorem findNamed_eq_find? (want : CStr) {children : List Addr}
    (live : ∀ c ∈ children, h.Live c) :
    h.findNamed names want children =
      some (children.find? fun c => h.nameOf names c == some want) := by
  induction children with
  | nil => rfl
  | cons c children ih =>
      obtain ⟨o, cell⟩ : ∃ o, h.cells c = some o :=
        Option.isSome_iff_exists.mp (live c List.mem_cons_self)
      obtain ⟨got, isName⟩ : ∃ got, h.getName names c = some got := by
        rw [Heap.getName, cell, Option.bind_eq_bind, Option.bind_some]
        cases o.impl with
        | root pending => exact ⟨_, rfl⟩
        | node v => exact ⟨_, rfl⟩
      have later := ih fun d member => live d (List.mem_cons_of_mem _ member)
      rw [Heap.findNamed, isName, List.find?_cons, Heap.nameOf, isName]
      cases got with
      | error e => simpa using later
      | ok name =>
          by_cases same : name = want
          · simp [same]
          · have differ : (name == want) = false := beq_false_of_ne same
            simpa [same, differ] using later

/-! ## The loop -/

/-- The steps of `resolve_path` for these segments. -/
def resolveSegments (names : ν → Except Error CStr) (populate : Addr → Populate ν) :
    List CStr → Heap ν → Addr → Option (Heap ν × Resolved)
  | [], h, cur => some (h, ⟨some cur, cur, none⟩)
  | seg :: segs, h, cur => do
      let (h, next) ← h.findChild names populate cur seg
      match next with
      | none => some (h, ⟨none, cur, some seg⟩)
      | some next => resolveSegments names populate segs h next

/-- The loop takes the segments of what is left of the path. -/
theorem resolveFrom_eq {steps : Nat} {text : Bytes} (enough : text.length < steps) (h : Heap ν)
    (cur : Addr) :
    resolveFrom names populate true steps h cur text =
      resolveSegments names populate (segments slash text) h cur := by
  induction steps generalizing text h cur with
  | zero => exact absurd enough (Nat.not_lt_zero _)
  | succ steps ih =>
      have tokens := segments_strtok slash text
      rw [Heap.resolveFrom]
      cases token : strtok slash text with
      | none =>
          rw [token] at tokens
          rw [show segments slash text = [] from tokens]
          rfl
      | some token' =>
          obtain ⟨seg, rest⟩ := token'
          rw [token] at tokens
          obtain ⟨split, shorter⟩ :
              segments slash text = seg :: segments slash rest ∧ rest.length < text.length := tokens
          rw [split, resolveSegments]
          apply congrArg (Option.bind _)
          funext found
          obtain ⟨h₁, next⟩ := found
          cases next with
          | none => rfl
          | some next => exact ih (by omega) h₁ next

/-- **`resolve_path` depends on the segments of the path alone.** -/
theorem resolvePath_eq (h : Heap ν) (names : ν → Except Error CStr)
    (populate : Addr → Populate ν) (root : Addr) (path : Option CStr) :
    h.resolvePath names populate true true root path =
      resolveSegments names populate (pathSegments path) h root := by
  cases path with
  | none =>
      have noSegments : pathSegments none = [] := segments_nil
      rw [noSegments]
      rfl
  | some path =>
      have isSegments : pathSegments (some path) = segments slash path := rfl
      rw [isSegments, Heap.resolvePath]
      by_cases short : path = [] ∨ path = [slash]
      · have noSegments : segments slash path = [] := by
          rcases short with rfl | rfl
          · exact segments_nil
          · rw [segments_sep, segments_nil]
        rw [if_pos short, noSegments]
        rfl
      · rw [if_neg short, if_neg Bool.noConfusion]
        exact resolveFrom_eq (Nat.lt_succ_self _) h root

end Heap

namespace Owned

open Heap

variable {h h₁ h' : Heap ν} {root self : Addr} {pending all : List Addr} {o : Obj ν}
  {names : ν → Except Error CStr} {populate : Addr → Populate ν}

/-- What enumerating an object leaves, when it ends so. -/
def Lists (h' : Heap ν) (self : Addr) : Except Error (List Addr) → Prop
  | .ok cs => h'.Enumerated self ∧ h'.listed self = cs
  | .error _ => h'.listed self = []

/-- **Enumerating an object** that is not the root, or that was enumerated, keeps the tree. -/
theorem enumerates (owned : Owned h root pending all) (cell : h.cells self = some o)
    (p : Populate ν) :
    ∃ h' result pending' all', h.getChildren self p = some (h', result) ∧
      Owned h' root pending' all' ∧ Lists h' self result ∧
        (self ≠ root ∨ h.Enumerated self → h.Keeps h') := by
  cases populated : o.populated with
  | true =>
      exact ⟨h, _, pending, all, getChildren_populated cell populated p, owned,
        ⟨⟨o, cell, populated⟩, Enumerated.listed cell populated⟩, fun _ => .refl h⟩
  | false =>
      have notYet : ¬h.Enumerated self := by
        rintro ⟨o', cell', populated'⟩
        obtain rfl := Option.some.inj (cell.symm.trans cell')
        rw [populated] at populated'
        cases populated'
      -- What is listed is what the object is left with.
      have lists {h' : Heap ν} {ended : Except Error Unit} {o' : Obj ν}
          (own : h'.cells self = some o') (marked : o'.populated = ended.isOk) :
          Lists h' self (listing ended o'.children) := by
        cases ended with
        | ok => exact ⟨⟨o', own, marked⟩, Enumerated.listed own marked⟩
        | error e => exact listed_of_not own marked
      by_cases isRoot : self = root
      · subst isRoot
        obtain ⟨h', all', capacity, eq, owned', -, own, -⟩ :=
          owned.getChildren_root cell populated p rfl
        refine ⟨h', _, [], all', eq, owned', lists own ?_, ?_⟩
        · split
          · next same => exact decide_eq_true same
          · next differ => exact decide_eq_false differ
        · intro other
          exact (other.elim (absurd rfl) notYet).elim
      · obtain ⟨v, impl⟩ := (owned.account.sound self o cell).isNode isRoot
        obtain ⟨h', added, all', capacity, eq, owned', own, change⟩ :=
          owned.getChildren_node cell impl populated p rfl
        refine ⟨h', _, pending, all', eq, owned', lists own rfl, fun _ => ?_⟩
        intro a o₁ cell₁
        by_cases isSelf : a = self
        · subst isSelf
          obtain rfl := Option.some.inj (cell.symm.trans cell₁)
          refine ⟨_, own, rfl, fun populated' => ?_⟩
          rw [populated] at populated'
          cases populated'
        · have old := owned.account.lt_fresh (owned.account.mem_of_cell cell₁)
          exact ⟨o₁, (change.others a isSelf old).trans cell₁, rfl, fun _ => rfl⟩

/-- What is listed is there, and the root is not. -/
theorem listed_live (owned : Owned h root pending all) {c : Addr} (member : c ∈ h.listed self) :
    c ≠ root ∧ ∃ k, h.cells c = some k := by
  rw [Heap.listed] at member
  split at member
  · next o cell =>
      split at member
      · obtain ⟨k, cellC, parent⟩ := owned.child_live cell member
        refine ⟨?_, k, cellC⟩
        rintro rfl
        obtain ⟨cs, links⟩ := owned.account.forest.siblings_parent c List.mem_cons_self
        rw [Heap.links_eq cellC, parent] at links
        cases (Prod.mk.inj (Option.some.inj links)).1
      · cases member
  · cases member

/-- What is enumerated is searched alike when the tree is kept. -/
theorem childNamed_keeps (owned : Owned h root pending all) (keeps : h.Keeps h')
    (enumerated : h.Enumerated self) (names : ν → Except Error CStr) (want : CStr) :
    h'.childNamed names self want = h.childNamed names self want := by
  obtain ⟨o, cell, populated⟩ := enumerated
  have same : h'.listed self = h.listed self := by
    rw [Enumerated.listed cell populated, Enumerated.listed (keeps.cells cell populated) populated]
  rw [childNamed, childNamed, same]
  refine List.find?_congr fun c member => ?_
  obtain ⟨-, k, cellC⟩ := owned.listed_live member
  rw [keeps.nameOf (Option.isSome_of_mem cellC)]

/-- **Resolving segments** from an object follows the first child with the name of each. -/
theorem resolveSegments (names : ν → Except Error CStr) (populate : Addr → Populate ν)
    (segs : List CStr) (owned : Owned h root pending all) (cell : h.cells self = some o) :
    ∃ h' r pending' all', resolveSegments names populate segs h self = some (h', r) ∧
      Owned h' root pending' all' ∧ h'.Resolves names populate self segs r ∧
        (self ≠ root ∨ h.Enumerated self → h.Keeps h') := by
  induction segs generalizing h self pending all o with
  | nil =>
      refine ⟨h, ⟨some self, self, none⟩, pending, all, rfl, owned, ⟨.inl ⟨self, rfl, rfl⟩, ?_⟩,
        fun _ => .refl h⟩
      intro found seg rest n split
      exact absurd split.symm (List.append_ne_nil_of_right_ne_nil _ (List.cons_ne_nil _ _))
  | cons seg segs ih =>
      obtain ⟨h₁, result, pending₁, all₁, eq, owned₁, lists, keeps⟩ :=
        owned.enumerates cell (populate self)
      rw [Heap.resolveSegments, Heap.findChild, eq]
      simp only [Option.bind_eq_bind, Option.bind_some]
      cases result with
      | error e =>
          have none : h₁.childNamed names self seg = none := by
            rw [childNamed, show h₁.listed self = [] from lists, List.find?_nil]
          exact ⟨h₁, _, pending₁, all₁, rfl, owned₁, .missing none (.inr ⟨h, e, eq⟩), keeps⟩
      | ok cs =>
          obtain ⟨enumerated, listed⟩ : h₁.Enumerated self ∧ h₁.listed self = cs := lists
          have live : ∀ c ∈ cs, h₁.Live c := by
            intro c member
            rw [← listed] at member
            obtain ⟨-, k, cellC⟩ := owned₁.listed_live member
            exact Option.isSome_of_mem cellC
          have found : h₁.findNamed names seg cs = some (h₁.childNamed names self seg) := by
            rw [findNamed_eq_find? seg live, childNamed, listed]
          simp only [found, Option.bind_some]
          cases first : h₁.childNamed names self seg with
          | none =>
              exact ⟨h₁, _, pending₁, all₁, rfl, owned₁, .missing first (.inl enumerated), keeps⟩
          | some next =>
              obtain ⟨notRoot, k, cellN⟩ :=
                owned₁.listed_live (List.mem_of_find?_eq_some first)
              obtain ⟨h', r, pending', all', eq', owned', resolves, keeps'⟩ := ih owned₁ cellN
              have later := keeps' (.inl notRoot)
              obtain ⟨o', cell', populated⟩ := enumerated
              refine ⟨h', r, pending', all', eq', owned',
                .step ?_ ⟨o', later.cells cell' populated, populated⟩ resolves,
                fun other => (keeps other).trans later⟩
              rw [owned₁.childNamed_keeps later ⟨o', cell', populated⟩, first]

/-- A path is resolved from the root. -/
theorem resolvePath (owned : Owned h root pending all) (names : ν → Except Error CStr)
    (populate : Addr → Populate ν) (path : Option CStr) :
    ∃ h' r pending' all', h.resolvePath names populate true true root path = some (h', r) ∧
      Owned h' root pending' all' ∧ h'.Resolves names populate root (pathSegments path) r ∧
        (h.Enumerated root → h.Keeps h') := by
  obtain ⟨o, cell, -⟩ := owned.listed
  obtain ⟨h', r, pending', all', eq, owned', resolves, keeps⟩ :=
    owned.resolveSegments names populate (pathSegments path) cell
  exact ⟨h', r, pending', all', (h.resolvePath_eq names populate root path).trans eq, owned',
    resolves, fun enumerated => keeps (.inr enumerated)⟩

end Owned

/-- **In every state of a run a path is resolved by its segments**: the first child with the
name of each is followed, as far as there is one. Paths with the same segments are resolved
alike, what was enumerated before stays, and where siblings have different names an object is
found by the names on the way to it. -/
theorem resolvePath_resolves {transports : List ν} {calls : List (Call ν)} {h : Heap ν}
    (ran : Heap.run calls (Heap.rootCreate transports).2 = some h)
    (names : ν → Except Error CStr) (populate : Addr → Populate ν) (path : Option CStr) :
    let root := (Heap.rootCreate transports).1
    let segs := pathSegments path
    ∃ h' r,
      (∀ path', pathSegments path' = segs →
        h.resolvePath names populate true true root path' = some (h', r)) ∧
      h'.Resolves names populate root segs r ∧ (h.Enumerated root → h.Keeps h') ∧
        ((∀ p, ((h'.listed p).filterMap (h'.nameOf names)).Nodup) →
          ∀ n, h'.Spells names root segs n → r = ⟨some n, n, none⟩) := by
  obtain ⟨pending, created⟩ := rootCreate_owned transports
  obtain ⟨h₁, pending', all', ran', owned⟩ := created.run calls
  obtain rfl := Option.some.inj (ran'.symm.trans ran)
  obtain ⟨h', r, -, -, eq, -, resolves, keeps⟩ := owned.resolvePath names populate path
  refine ⟨h', r, ?_, resolves, keeps, ?_⟩
  · intro path' same
    rw [← eq, Heap.resolvePath_eq, Heap.resolvePath_eq, same]
  · intro distinct n spells
    exact resolves.of_followed (spells.followed distinct)

/-- A root with a transport, which has a namespace, and a path with slashes to spare. -/
theorem resolvePath_slashes :
    let populate : Addr → Populate CStr := fun a =>
      ⟨if a = 0 then [⟨lit "genl", [], false⟩] else [], .ok (), fun _ => true⟩
    let created := (Heap.rootCreate [lit "netlink"]).2
    ∃ h' r, created.resolvePath .ok populate true true 1 (some (lit "//netlink//genl/")) =
        some (h', r) ∧
      h'.Resolves .ok populate 1 [lit "netlink", lit "genl"] r ∧ r.object = some 2 := by
  intro populate created
  have split : pathSegments (some (lit "//netlink//genl/")) = [lit "netlink", lit "genl"] := by
    decide
  obtain ⟨h', r, resolved, resolves, -, -⟩ :=
    resolvePath_resolves (show Heap.run [] created = some created from rfl) .ok populate
      (some (lit "//netlink//genl/"))
  rw [split] at resolves
  have found := resolved _ rfl
  obtain ⟨h₁, r₁, eq, isGenl⟩ : ∃ h₁ r₁,
      created.resolvePath .ok populate true true 1 (some (lit "//netlink//genl/")) =
        some (h₁, r₁) ∧ r₁.object = some 2 := ⟨_, _, rfl, rfl⟩
  obtain ⟨rfl, rfl⟩ := Prod.mk.inj (Option.some.inj (eq.symm.trans found))
  exact ⟨h₁, r₁, eq, resolves, isGenl⟩

end Ykern.Tree
