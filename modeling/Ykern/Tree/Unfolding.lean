import Ykern.Tree.FsPaths
import Ykern.Tree.Refresh
import Ykern.Tree.Resolve

/-!
# The tree of a world

What a world offers is a tree: below the root are the transports, and below a node is what its
callback creates (`below`). The program builds this tree piece by piece, as it is asked for.

Each object stands for a site of the tree (`siteOf`). In every state that a run leaves in an
unchanging world, listing an object lists objects for the sites below its own, in their order
(`Stocked.lists`). So a path is resolved to what the tree has there, whatever was listed and
refreshed before (`world_unfolds`).
-/

set_option autoImplicit false

namespace Ykern.Tree

open Forest Overlay

variable {ν : Type}

/-! ## Sites -/

/-- A site of a tree: the root, or a node and the node above it, if this is not the root. -/
inductive Site (ν : Type) where
  | root
  | node (above : Option ν) (value : ν)
  deriving DecidableEq

/-- What is below a node in a tree, or nothing if that cannot be listed. -/
abbrev Kids (ν : Type) := Option ν → ν → Option (List ν)

section Sites

variable (kids : Kids ν) (transports : List ν) (names : ν → Except Error CStr)

/-- The sites below a site. -/
def below : Site ν → Option (List (Site ν))
  | .root => some (transports.map (.node none))
  | .node above v => (kids above v).map (List.map (.node (some v)))

/-- The site has this name. -/
def Site.isNamed (want : CStr) : Site ν → Bool
  | .root => want == []
  | .node _ v =>
      match names v with
      | .ok name => name == want
      | .error _ => false

/-- What is found at the end of a path: a site, or the last site on the way and the name that is
missing below it. -/
inductive Found (ν : Type) where
  | site (s : Site ν)
  | missing (last : Site ν) (name : CStr)
  deriving DecidableEq

/-- Follow names from a site: the first site with the name is taken. -/
def follow (s : Site ν) : List CStr → Found ν
  | [] => .site s
  | name :: later =>
      match (below kids transports s).bind fun sites => sites.find? (Site.isNamed names name) with
      | none => .missing s name
      | some next => follow next later

end Sites

/-- The site an object stands for. -/
def Heap.siteOf (h : Heap ν) (a : Addr) : Option (Site ν) :=
  (h.cells a).map fun o =>
    match o.impl with
    | .root _ => .root
    | .node v => .node (h.parentValue o) v

/-- What resolving a path has found. -/
def Heap.found (h : Heap ν) (r : Resolved) : Option (Found ν) :=
  match r.object, r.missing with
  | some a, _ => (h.siteOf a).map .site
  | none, some name => (h.siteOf r.deepest).map fun s => .missing s name
  | none, none => none

/-- The callbacks create what is below. -/
structure Creates (offers : Option ν → ν → Populate ν → Prop) (kids : Kids ν) : Prop where
  determined : Determined offers
  lists : ∀ above v p, offers above v p →
    kids above v = if p.result.isOk then some (p.spawns.map (·.value)) else none

/-! ## What is kept -/

section Kept

variable {h h' : Heap ν} {root self : Addr} {pending all pending' all' : List Addr} {o : Obj ν}

theorem siteOf_node {a : Addr} (cell : h.cells a = some o) {v : ν} (impl : o.impl = .node v) :
    h.siteOf a = some (.node (h.parentValue o) v) := by
  rw [Heap.siteOf, cell, Option.map_some, impl]

theorem siteOf_root (owned : Owned h root pending all) : h.siteOf root = some .root := by
  obtain ⟨o, cell, impl⟩ := owned.listed
  rw [Heap.siteOf, cell, Option.map_some, impl]

/-- What has a value stands for a node. -/
theorem siteOf_child (owned : Owned h root pending all) (cell : h.cells self = some o) {c : Addr}
    (child : c ∈ o.children) :
    h.siteOf c = (h.valueAt c).map (.node (h.valueAt self)) := by
  obtain ⟨k, cellC, parent⟩ := owned.child_live cell child
  have above : h.parentValue k = h.valueAt self := by
    rw [Heap.parentValue, parent, Option.bind_some]
  have notRoot : c ≠ root := by
    rintro rfl
    obtain ⟨cs, links⟩ := owned.account.forest.siblings_parent c List.mem_cons_self
    rw [Heap.links_eq cellC, parent] at links
    cases (Prod.mk.inj (Option.some.inj links)).1
  obtain ⟨v, impl⟩ := (owned.account.sound c k cellC).isNode notRoot
  have value : h.valueAt c = some v := by
    rw [Heap.valueAt, cellC, Option.bind_some, impl]
  rw [siteOf_node cellC impl, above, value]
  rfl

/-- **What stays stands for the same site**, when the called object does. -/
theorem siteOf_steady (steady : Steady root self h h') (owned : Owned h root pending all)
    (owned' : Owned h' root pending' all') (own : h'.siteOf self = h.siteOf self) {a : Addr}
    (live : h.Live a) (live' : h'.Live a) : h'.siteOf a = h.siteOf a := by
  by_cases isSelf : a = self
  · rw [isSelf, own]
  obtain ⟨o, cell⟩ : ∃ o, h.cells a = some o := Option.isSome_iff_exists.mp live
  obtain ⟨o', cell'⟩ : ∃ o', h'.cells a = some o' := Option.isSome_iff_exists.mp live'
  have old := owned.account.lt_fresh (owned.account.mem_of_cell cell)
  obtain ⟨o₁, cell₁, impl, -, -, parent⟩ := steady.others a isSelf old o' cell'
  obtain rfl := Option.some.inj (cell.symm.trans cell₁)
  have sameParent := steady.parentValue owned owned' cell cell' parent
  rw [Heap.siteOf, Heap.siteOf, cell, cell', Option.map_some, Option.map_some, impl, sameParent]

/-- The called object stands for the same site, as its parent stays. -/
theorem siteOf_self (steady : Steady root self h h') (owned : Owned h root pending all)
    (owned' : Owned h' root pending' all') {o' : Obj ν} (cell : h.cells self = some o)
    (cell' : h'.cells self = some o') (impl : o'.impl = o.impl) (parent : o'.parent = o.parent) :
    h'.siteOf self = h.siteOf self := by
  have sameParent := steady.parentValue owned owned' cell cell' (.inl parent)
  rw [Heap.siteOf, Heap.siteOf, cell, cell', Option.map_some, Option.map_some, impl, sameParent]

end Kept

/-! ## What is listed -/

/-- All is settled, and the root has its transports: those that are children, and those that it
has not handed over. -/
structure Stocked (offers : Option ν → ν → Populate ν → Prop) (transports : List ν) (root : Addr)
    (h : Heap ν) : Prop where
  settled : Settled offers h
  stock : ∀ o pending, h.cells root = some o → o.impl = .root pending →
    (o.children ++ pending).map h.siteOf = transports.map fun t => some (.node none t)

/-- What listing an object of a site shows: the sites below, or a failure. -/
def Shows (h : Heap ν) (result : Except Error (List Addr)) : Option (List (Site ν)) → Prop
  | some sites => ∃ cs, result = .ok cs ∧ cs.map h.siteOf = sites.map some
  | none => ∃ e, result = .error e

section Lists

variable {offers : Option ν → ν → Populate ν → Prop} {kids : Kids ν} {transports : List ν}
  {h h' : Heap ν} {root self : Addr} {pending all pending' all' : List Addr} {o : Obj ν}

/-- Children with these values stand for the sites with them. -/
theorem map_siteOf (owned : Owned h root pending all) (cell : h.cells self = some o)
    {vs : List ν} (values : o.children.map h.valueAt = vs.map some) :
    o.children.map h.siteOf = vs.map fun v => some (.node (h.valueAt self) v) := by
  have sites : o.children.map h.siteOf =
      (o.children.map h.valueAt).map (Option.map (.node (h.valueAt self))) := by
    rw [List.map_map]
    exact List.map_congr_left fun c child => siteOf_child owned cell child
  rw [sites, values, List.map_map]
  rfl

/-- The transports that the root has, handed over or not, are there. -/
theorem stock_live (owned : Owned h root pending all) (cell : h.cells root = some o) {c : Addr}
    (member : c ∈ o.children ++ pending) : h.Live c := by
  rcases List.mem_append.mp member with child | waits
  · obtain ⟨k, cellC, -⟩ := owned.child_live cell child
    exact Option.isSome_of_mem cellC
  · obtain ⟨cs, links⟩ := owned.account.forest.siblings_parent c (List.mem_cons_of_mem _ waits)
    obtain ⟨k, cellC, -⟩ := Heap.exists_cell links
    exact Option.isSome_of_mem cellC

/-- A call on a node that keeps its site keeps the stock. -/
theorem Stocked.of_steady (stocked : Stocked offers transports root h) (notRoot : self ≠ root)
    (steady : Steady root self h h') (owned : Owned h root pending all)
    (owned' : Owned h' root pending' all') (own : h'.siteOf self = h.siteOf self)
    (settled' : Settled offers h') : Stocked offers transports root h' := by
  refine ⟨settled', fun o' waiting cell' impl' => ?_⟩
  have old := owned.account.lt_fresh owned.account.root_mem
  obtain ⟨o, cell, impl, children, -, -⟩ := steady.others root (Ne.symm notRoot) old o' cell'
  obtain ⟨r, cellR, implR⟩ := owned.listed
  obtain rfl := Option.some.inj (cell.symm.trans cellR)
  obtain ⟨r', cellR', implR'⟩ := owned'.listed
  obtain rfl := Option.some.inj (cell'.symm.trans cellR')
  obtain rfl := Impl.root.inj (implR'.symm.trans impl')
  obtain rfl := Impl.root.inj (implR'.symm.trans (impl.trans implR))
  rw [children, ← stocked.stock o _ cell implR]
  refine List.map_congr_left fun c member => ?_
  exact siteOf_steady steady owned owned' own (stock_live owned cell member)
    (stock_live owned' cell' (children ▸ member))

/-- A node that was listed shows what is below. -/
theorem Settled.shows (settled : Settled offers h) (creates : Creates offers kids)
    (owned : Owned h root pending all) (cell : h.cells self = some o) {v : ν}
    (impl : o.impl = .node v) (populated : o.populated = true) :
    Shows h (.ok o.children) (below kids transports (.node (h.parentValue o) v)) := by
  obtain ⟨p, offered, succeeds, values⟩ := (settled self o cell).filled v impl populated
  have value : h.valueAt self = some v := by rw [Heap.valueAt, cell, Option.bind_some, impl]
  have lists : kids (h.parentValue o) v = some (p.spawns.map (·.value)) := by
    rw [creates.lists _ _ _ offered, succeeds]
    rfl
  rw [below, lists]
  refine ⟨o.children, rfl, ?_⟩
  rw [map_siteOf owned cell values, value, List.map_map, List.map_map, List.map_map]
  rfl

/-- Listing the root shows the transports, and hands over those that are pending. -/
theorem Stocked.lists_root (stocked : Stocked offers transports root h)
    (owned : Owned h root pending all) {p : Populate ν}
    (fits : h.Fits offers (.getChildren root p)) :
    ∃ h' result pending' all', h.getChildren root p = some (h', result) ∧
      Owned h' root pending' all' ∧ Stocked offers transports root h' ∧
      Shows h' result (below kids transports .root) := by
  have site := siteOf_root owned
  obtain ⟨o, cell, impl⟩ := owned.listed
  have stock := stocked.stock o pending cell impl
  cases populated : o.populated with
  | true =>
      obtain rfl := (stocked.settled root o cell).handed pending impl populated
      rw [List.append_nil] at stock
      refine ⟨h, _, [], all, Owned.getChildren_populated cell populated p, owned, stocked,
        o.children, rfl, ?_⟩
      rw [stock, List.map_map]
      rfl
  | false =>
      have grows := fits o cell
      rw [impl] at grows
      obtain ⟨h', all', eq, owned', settled'⟩ :=
        stocked.settled.getChildren_root owned cell populated grows
      obtain ⟨o', cell', -, children'⟩ := Owned.cell_of_listed cell eq
      have steady := owned.getChildren_steady cell eq
      have site' := siteOf_root owned'
      -- The pending transports are children now, and stand for the same sites.
      have sites : (o.children ++ pending).map h'.siteOf = (o.children ++ pending).map h.siteOf := by
        refine List.map_congr_left fun c member => ?_
        have live' := stock_live owned' cell' (List.mem_append_left [] (children' ▸ member))
        exact siteOf_steady steady owned owned' (site'.trans site.symm)
          (stock_live owned cell member) live'
      refine ⟨h', _, [], all', eq, owned', ⟨settled', ?_⟩, _, rfl, ?_⟩
      · intro o₂ pending₂ cell₂ impl₂
        obtain rfl := Option.some.inj (cell'.symm.trans cell₂)
        obtain ⟨r', cellR', implR'⟩ := owned'.listed
        obtain rfl := Option.some.inj (cell'.symm.trans cellR')
        obtain rfl := Impl.root.inj (implR'.symm.trans impl₂)
        rw [children', List.append_nil, sites, stock]
      · rw [sites, stock, List.map_map]
        rfl

/-- Listing a node shows what its callback creates. -/
theorem Stocked.lists_node (stocked : Stocked offers transports root h)
    (creates : Creates offers kids) (owned : Owned h root pending all) (notRoot : self ≠ root)
    (cell : h.cells self = some o) {v : ν} (impl : o.impl = .node v) {p : Populate ν}
    (fits : h.Fits offers (.getChildren self p)) :
    ∃ h' result pending' all', h.getChildren self p = some (h', result) ∧
      Owned h' root pending' all' ∧ Stocked offers transports root h' ∧
      h'.siteOf self = h.siteOf self ∧
      Shows h' result (below kids transports (.node (h.parentValue o) v)) := by
  cases populated : o.populated with
  | true =>
      exact ⟨h, _, pending, all, Owned.getChildren_populated cell populated p, owned, stocked, rfl,
        stocked.settled.shows creates owned cell impl populated⟩
  | false =>
      have offered := fits o cell
      rw [impl] at offered
      obtain ⟨h', added, all', capacity, eq, owned', own, change⟩ :=
        owned.getChildren_node cell impl populated p
          (outcome_grows (creates.determined.grows _ _ _ offered) _ _ _ _ _)
      have steady := owned.getChildren_steady cell eq
      obtain ⟨h₁, cs, all₁, eq₁, owned₁, settled', values⟩ :=
        stocked.settled.getChildren creates.determined owned cell impl populated offered
      obtain ⟨rfl, same⟩ := Prod.mk.inj (Option.some.inj (eq.symm.trans eq₁))
      have site' := siteOf_self steady owned owned' cell own rfl rfl
      refine ⟨h', _, pending, all', eq, owned',
        stocked.of_steady notRoot steady owned owned' site' settled', site', ?_⟩
      rw [below, creates.lists _ _ _ offered]
      cases result : p.result with
      | error e => exact ⟨_, rfl⟩
      | ok _ =>
          have childValues := values result
          rw [result] at same
          obtain rfl := Except.ok.inj same
          have value : h'.valueAt self = some v := by rw [Heap.valueAt, own, Option.bind_some, impl]
          refine ⟨_, rfl, ?_⟩
          rw [map_siteOf owned' own childValues, value, List.map_map, List.map_map, List.map_map]
          rfl

/-- **Listing an object shows what is below its site**, and keeps the stock. -/
theorem Stocked.lists (stocked : Stocked offers transports root h) (creates : Creates offers kids)
    (owned : Owned h root pending all) (cell : h.cells self = some o) {p : Populate ν}
    (fits : h.Fits offers (.getChildren self p)) :
    ∃ s h' result pending' all', h.siteOf self = some s ∧
      h.getChildren self p = some (h', result) ∧ Owned h' root pending' all' ∧
      Stocked offers transports root h' ∧ h'.siteOf self = some s ∧
      Shows h' result (below kids transports s) := by
  by_cases isRoot : self = root
  · subst isRoot
    obtain ⟨h', result, pending', all', eq, owned', stocked', shows⟩ :=
      stocked.lists_root owned fits
    exact ⟨.root, h', result, pending', all', siteOf_root owned, eq, owned', stocked',
      siteOf_root owned', shows⟩
  · obtain ⟨v, impl⟩ := (owned.account.sound self o cell).isNode isRoot
    have site := siteOf_node cell impl
    obtain ⟨h', result, pending', all', eq, owned', stocked', same, shows⟩ :=
      stocked.lists_node creates owned isRoot cell impl fits
    exact ⟨_, h', result, pending', all', site, eq, owned', stocked', same.trans site, shows⟩

end Lists

/-! ## Runs -/

section Runs

variable {offers : Option ν → ν → Populate ν → Prop} {kids : Kids ν} {transports : List ν}
  {h h' : Heap ν} {root self : Addr} {pending all : List Addr} {o : Obj ν}

/-- New nodes stand for sites without a node above. -/
theorem map_siteOf_new {as : List Addr} {vs : List ν}
    (new : as.map h.cells = vs.map fun v => some (.new (.node v))) :
    as.map h.siteOf = vs.map fun v => some (.node none v) := by
  induction as generalizing vs with
  | nil =>
      obtain rfl := List.map_eq_nil_iff.mp new.symm
      rfl
  | cons a as ih =>
      obtain ⟨v, vs, rfl, cell, rest⟩ := List.map_eq_cons_iff.mp new.symm
      rw [List.map_cons, List.map_cons, ih rest.symm, siteOf_node cell.symm rfl]
      rfl

/-- The new root has all its transports. -/
theorem rootCreate_stocked (offers : Option ν → ν → Populate ν → Prop) (transports : List ν) :
    Stocked offers transports (Heap.rootCreate transports).1 (Heap.rootCreate transports).2 := by
  refine ⟨rootCreate_settled offers transports, fun o pending cell impl => ?_⟩
  obtain ⟨eq, fresh, -, -, values⟩ := Heap.createAll_spec transports Heap.empty
  rw [Heap.rootCreate_eq] at cell ⊢
  generalize Heap.createAll transports Heap.empty = created at *
  obtain ⟨as, h⟩ := created
  simp only at eq fresh values cell ⊢
  obtain rfl := Option.some.inj ((h.cells_create_self (.root as)).symm.trans cell)
  obtain rfl := Impl.root.inj impl
  have kept : as.map (h.create (.root as)).2.cells = as.map h.cells := by
    refine List.map_congr_left fun a member => h.cells_create_of_ne (.root as) ?_
    rw [eq] at member
    rw [fresh]
    exact Nat.ne_of_lt (List.mem_range'_1.mp member).2
  exact map_siteOf_new (kept.trans values)

/-- **A call that does not refresh the root keeps the stock.** -/
theorem Stocked.call (stocked : Stocked offers transports root h) (creates : Creates offers kids)
    (owned : Owned h root pending all) {c : Call ν} (live : h.Live c.self) (fits : h.Fits offers c)
    (notRoot : c ≠ .refresh root) (called : h.call c = some h') :
    Stocked offers transports root h' := by
  obtain ⟨o, cell⟩ : ∃ o, h.cells c.self = some o := Option.isSome_iff_exists.mp live
  cases c with
  | getChildren self p =>
      obtain ⟨s, h₁, result, pending', all', -, eq, -, stocked', -⟩ :=
        stocked.lists creates owned (show h.cells self = some o from cell) fits
      rw [Heap.call, eq] at called
      obtain rfl := Option.some.inj called
      exact stocked'
  | refresh self =>
      have other : self ≠ root := fun same => notRoot (same ▸ rfl)
      obtain ⟨h₁, all', eq, own, owned', settled', steady⟩ := stocked.settled.refresh owned cell
      rw [Heap.call, show h.refresh self = some h₁ from eq] at called
      obtain rfl := Option.some.inj called
      exact stocked.of_steady other steady owned owned'
        (siteOf_self steady owned owned' cell own rfl rfl) settled'

/-- **A run that does not refresh the root keeps the stock.** -/
theorem Stocked.run {calls : List (Call ν)} (stocked : Stocked offers transports root h)
    (creates : Creates offers kids) (owned : Owned h root pending all)
    (unchanging : Unchanging offers calls h) (notRoot : Call.refresh root ∉ calls)
    (ran : Heap.run calls h = some h') :
    ∃ pending' all', Owned h' root pending' all' ∧ Stocked offers transports root h' := by
  obtain ⟨pending', all', owned', stocked', -⟩ := owned.run_keeps
    (motive := fun calls h => Stocked offers transports root h ∧ Unchanging offers calls h ∧
      Call.refresh root ∉ calls)
    (by
      rintro c calls h h' pending all owned live called ⟨stocked, unchanging, notRoot⟩
      rw [Unchanging, if_pos live] at unchanging
      have other : c ≠ .refresh root := Ne.symm (List.ne_of_not_mem_cons notRoot)
      exact ⟨stocked.call creates owned live unchanging.1 other called,
        unchanging.2 h' called, List.not_mem_of_not_mem_cons notRoot⟩)
    (by
      rintro c calls h dead ⟨stocked, unchanging, notRoot⟩
      rw [Unchanging, if_neg dead] at unchanging
      exact ⟨stocked, unchanging, List.not_mem_of_not_mem_cons notRoot⟩)
    ⟨stocked, unchanging, notRoot⟩ ran
  exact ⟨pending', all', owned', stocked'⟩

end Runs

/-! ## Paths -/

/-- The callbacks that resolving these segments from an object asks for may do what they do. -/
def FitsAlong (offers : Option ν → ν → Populate ν → Prop) (names : ν → Except Error CStr)
    (populate : Addr → Populate ν) : List CStr → Heap ν → Addr → Prop
  | [], _, _ => True
  | seg :: segs, h, cur =>
      h.Fits offers (.getChildren cur (populate cur)) ∧
        ∀ h' next, h.findChild names populate cur seg = some (h', some next) →
          FitsAlong offers names populate segs h' next

section Paths

variable {offers : Option ν → ν → Populate ν → Prop} {kids : Kids ν} {transports : List ν}
  {names : ν → Except Error CStr} {populate : Addr → Populate ν} {h : Heap ν} {root self : Addr}
  {pending all : List Addr} {o : Obj ν}

/-- An object has the name of its site. -/
theorem nameOf_site {a : Addr} {s : Site ν} (site : h.siteOf a = some s) (want : CStr) :
    (h.nameOf names a == some want) = s.isNamed names want := by
  obtain ⟨o, cell, rfl⟩ := Option.map_eq_some_iff.mp site
  rw [Heap.nameOf, Heap.getName, cell]
  cases impl : o.impl with
  | root listed => simp [Site.isNamed, impl]
  | node v =>
      cases name : names v with
      | ok name => simp [Site.isNamed, impl, name]
      | error e => simp [Site.isNamed, impl, name]

/-- The first object with a name stands for the first site with the name. -/
theorem find?_site {cs : List Addr} {sites : List (Site ν)}
    (same : cs.map h.siteOf = sites.map some) (want : CStr) :
    (cs.find? fun c => h.nameOf names c == some want).map h.siteOf =
      (sites.find? (Site.isNamed names want)).map some := by
  induction cs generalizing sites with
  | nil =>
      obtain rfl := List.map_eq_nil_iff.mp same.symm
      rfl
  | cons c cs ih =>
      obtain ⟨s, sites, rfl, site, rest⟩ := List.map_eq_cons_iff.mp same.symm
      rw [List.find?_cons, List.find?_cons, nameOf_site site.symm]
      cases s.isNamed names want with
      | true => exact congrArg some site.symm
      | false => exact ih rest.symm

/-- **Resolving segments finds what following them in the tree finds.** -/
theorem Stocked.resolves (segs : List CStr) (stocked : Stocked offers transports root h)
    (creates : Creates offers kids) (owned : Owned h root pending all)
    (cell : h.cells self = some o) (fits : FitsAlong offers names populate segs h self) {s : Site ν}
    (site : h.siteOf self = some s) :
    ∃ h' r, Heap.resolveSegments names populate segs h self = some (h', r) ∧
      h'.found r = some (follow kids transports names s segs) := by
  induction segs generalizing h self pending all o s with
  | nil =>
      refine ⟨h, _, rfl, ?_⟩
      show (h.siteOf self).map Found.site = _
      rw [site]
      rfl
  | cons seg segs ih =>
      obtain ⟨fit, later⟩ := fits
      obtain ⟨s', h₁, result, pending₁, all₁, site', eq, owned₁, stocked₁, site₁, shows⟩ :=
        stocked.lists creates owned cell fit
      obtain rfl := Option.some.inj (site.symm.trans site')
      have missing (nothing : (below kids transports s).bind
          (fun sites => sites.find? (Site.isNamed names seg)) = none) :
          h₁.found ⟨none, self, some seg⟩ =
            some (follow kids transports names s (seg :: segs)) := by
        rw [follow, nothing, Heap.found, site₁]
        rfl
      rw [Heap.resolveSegments]
      cases sites : below kids transports s with
      | none =>
          rw [sites] at shows
          obtain ⟨e, rfl⟩ := shows
          have found : h.findChild names populate self seg = some (h₁, none) := by
            rw [Heap.findChild, eq]
            rfl
          rw [found]
          exact ⟨h₁, _, rfl, missing (by rw [sites]; rfl)⟩
      | some sites' =>
          rw [sites] at shows
          obtain ⟨cs, rfl, same⟩ := shows
          have live : ∀ c ∈ cs, h₁.Live c := by
            intro c member
            have stands : h₁.siteOf c ∈ sites'.map some := same ▸ List.mem_map_of_mem member
            obtain ⟨t, -, isSite⟩ := List.mem_map.mp stands
            obtain ⟨k, cellC, -⟩ := Option.map_eq_some_iff.mp isSite.symm
            exact Option.isSome_of_mem cellC
          have found : h.findChild names populate self seg =
              some (h₁, cs.find? fun c => h₁.nameOf names c == some seg) := by
            rw [Heap.findChild, eq]
            simp only [Option.bind_eq_bind, Option.bind_some, Heap.findNamed_eq_find? seg live]
          have first := @find?_site _ names _ _ _ same seg
          rw [found]
          cases next : cs.find? fun c => h₁.nameOf names c == some seg with
          | none =>
              rw [next] at first
              have none := Option.map_eq_none_iff.mp first.symm
              exact ⟨h₁, _, rfl, missing (by rw [sites, Option.bind_some, none])⟩
          | some c =>
              rw [next] at first
              obtain ⟨t, isNext, stands⟩ := Option.map_eq_some_iff.mp first.symm
              obtain ⟨k, cellC⟩ := Option.isSome_iff_exists.mp
                (live c (List.mem_of_find?_eq_some next))
              obtain ⟨h', r, resolved, reached⟩ :=
                ih stocked₁ owned₁ cellC (later h₁ c (next ▸ found)) stands.symm
              refine ⟨h', r, resolved, ?_⟩
              rw [reached, follow, sites, Option.bind_some, isNext]

end Paths

/-! ## The tree of the repository -/

open Genl

/-- What is below a node in a world. -/
def World.kids (w : World) : Kids Node
  | _, .genlNamespace =>
      match enumerate w.base w.files w.replies with
      | (families, some (.ok ())) => some (families.map .family)
      | _ => none
  | _, .dir fs fsPath _ =>
      (w.entries fsPath).map fun listed => (dirSpawns w fs fsPath listed).map (·.value)
  | above, v => some ((v.spawns above).map (·.value))

/-- The callbacks create what is below a node in their world. -/
theorem World.creates (w : World) : Creates (Offers w) w.kids := by
  refine ⟨offers_determined w, fun above v p offered => ?_⟩
  have does := offered.does
  cases v with
  | genlNamespace =>
      obtain ⟨t, env, families, answered, ended, spawns⟩ := does
      rw [World.kids, nsPopulateChildren_enumerate answered ended, spawns, List.map_map]
      cases p.result with
      | error e => rfl
      | ok u => rfl
  | dir fs fsPath displayName =>
      rw [World.kids]
      simp only at does
      split at does
      · next missing =>
          rw [missing, does.2]
          rfl
      · next entries present =>
          obtain ⟨listed, perm, spawns, result⟩ := does
          have same : dirSpawns w fs fsPath listed = dirSpawns w fs fsPath entries := by
            rw [dirSpawns, dirSpawns, sortedNames_perm perm]
          rw [present, result, spawns, same]
          rfl
  | _ =>
      rw [does.1, does.2]
      rfl

/-- **The program shows the tree of its world.** In every state that a run leaves which does not
refresh the root, in a world that does not change, listing an object shows the sites below its
own, and a path is resolved to what following its segments in the tree finds, whatever was listed
and refreshed before. -/
theorem world_unfolds (w : World) {transports : List Node} {calls : List (Call Node)}
    {h : Heap Node} (unchanging : Unchanging (Offers w) calls (Heap.rootCreate transports).2)
    (notRoot : Call.refresh (Heap.rootCreate transports).1 ∉ calls)
    (ran : Heap.run calls (Heap.rootCreate transports).2 = some h) :
    (∀ a p, h.Live a → h.Fits (Offers w) (.getChildren a p) →
      ∃ s h' result, h.siteOf a = some s ∧ h.getChildren a p = some (h', result) ∧
        h'.siteOf a = some s ∧ Shows h' result (below w.kids transports s)) ∧
    ∀ path populate,
      FitsAlong (Offers w) nodeNames populate (pathSegments path) h
        (Heap.rootCreate transports).1 →
      ∃ h' r, h.resolvePath nodeNames populate true true (Heap.rootCreate transports).1 path =
          some (h', r) ∧
        h'.found r = some (follow w.kids transports nodeNames .root (pathSegments path)) := by
  obtain ⟨pending, created⟩ := rootCreate_owned transports
  obtain ⟨pending', all', owned, stocked⟩ :=
    (rootCreate_stocked (Offers w) transports).run w.creates created unchanging notRoot ran
  constructor
  · intro a p live fits
    obtain ⟨o, cell⟩ : ∃ o, h.cells a = some o := Option.isSome_iff_exists.mp live
    obtain ⟨s, h', result, -, -, site, eq, -, -, site', shows⟩ :=
      stocked.lists w.creates owned cell fits
    exact ⟨s, h', result, site, eq, site', shows⟩
  · intro path populate fits
    obtain ⟨o, cell, -⟩ := owned.listed
    obtain ⟨h', r, resolved, found⟩ :=
      stocked.resolves (pathSegments path) w.creates owned cell fits (siteOf_root owned)
    exact ⟨h', r, (h.resolvePath_eq nodeNames populate _ path).trans resolved, found⟩

/-- A namespace is found again after its transport was listed and refreshed. -/
theorem netlink_unfolds :
    let p : Populate Node := ⟨ynlSpawns, .ok (), fun _ => true⟩
    ∃ h h' r, Heap.run [.getChildren 1 p, .getChildren 0 p, .refresh 0]
        (Heap.rootCreate [Node.netlink]).2 = some h ∧
      h.resolvePath nodeNames (fun _ => p) true true 1 (some (lit "//netlink/rtnl/")) =
        some (h', r) ∧
      h'.found r = some (.site (.node (some .netlink) .rtnlNamespace)) := by
  intro p
  have offered (parent : Option Node) : Offers .bare parent .netlink p := ⟨fun _ => rfl, rfl, rfl⟩
  have unchanging : Unchanging (Offers .bare) [.getChildren 1 p, .getChildren 0 p, .refresh 0]
      (Heap.rootCreate [Node.netlink]).2 := by
    refine .cons (by rfl) (by rfl) (Heap.fits_root rfl rfl fun _ => rfl) ?_
    refine .cons (by rfl) (by rfl) (Heap.fits_node rfl rfl (offered _)) ?_
    exact .cons (by rfl) (by rfl) trivial trivial
  have split : pathSegments (some (lit "//netlink/rtnl/")) = [lit "netlink", lit "rtnl"] := by decide
  have notRoot : Call.refresh (Heap.rootCreate [Node.netlink]).1 ∉
      [.getChildren 1 p, .getChildren 0 p, .refresh 0] := by
    show Call.refresh 1 ∉ _
    simp
  obtain ⟨-, resolves⟩ := world_unfolds .bare unchanging notRoot rfl
  obtain ⟨h', r, resolved, found⟩ := resolves (some (lit "//netlink/rtnl/")) (fun _ => p) (by
    rw [split]
    refine ⟨Heap.fits_root rfl rfl fun _ => rfl, fun h₁ next found => ?_⟩
    obtain ⟨rfl, isNext⟩ := Prod.mk.inj (Option.some.inj found)
    obtain rfl := Option.some.inj isNext
    exact ⟨Heap.fits_node rfl rfl (offered _), fun _ _ _ => trivial⟩)
  refine ⟨_, h', r, rfl, resolved, found.trans ?_⟩
  rw [split]
  rfl

end Ykern.Tree
