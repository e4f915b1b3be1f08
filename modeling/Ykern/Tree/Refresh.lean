import Ykern.Tree.Calls
import Ykern.Tree.Nodes

/-!
# Listing again after a refresh

Refreshing drops what was listed, and the next listing fills the object again. If the world
has not changed, a node lists what it listed before: what a callback creates is determined by
the node, its parent and the world, so in every state of a run the children of a node are
those (`Settled`).

The root hands over its transports once. After a refresh it has none to list, so what it
lists is the same only if there were none before (`relisted_iff`).
-/

set_option autoImplicit false

namespace Ykern.Tree

open Forest Overlay

variable {ν : Type}

/-! ## An unchanging world -/

/-- What is behind the parent of an object. -/
def Heap.parentValue (h : Heap ν) (o : Obj ν) : Option ν := o.parent.bind h.valueAt

/-- The callback does what it may do in this world, and there is memory. -/
def Heap.Fits (offers : Option ν → ν → Populate ν → Prop) (h : Heap ν) : Call ν → Prop
  | .refresh _ => True
  | .getChildren self p => ∀ o, h.cells self = some o →
      match o.impl with
      | .root _ => ∀ i, p.grows i = true
      | .node v => offers (h.parentValue o) v p

/-- A run in this world. -/
def Unchanging (offers : Option ν → ν → Populate ν → Prop) : List (Call ν) → Heap ν → Prop
  | [], _ => True
  | c :: calls, h =>
      if h.Live c.self then h.Fits offers c ∧ ∀ h', h.call c = some h' → Unchanging offers calls h'
      else Unchanging offers calls h

/-- A run in this world, call by call. -/
theorem Unchanging.cons {offers : Option ν → ν → Populate ν → Prop} {h h' : Heap ν} {c : Call ν}
    {calls : List (Call ν)} (live : h.Live c.self) (called : h.call c = some h')
    (fits : h.Fits offers c) (later : Unchanging offers calls h') :
    Unchanging offers (c :: calls) h := by
  rw [Unchanging, if_pos live]
  refine ⟨fits, fun h'' called' => ?_⟩
  obtain rfl := Option.some.inj (called.symm.trans called')
  exact later

/-- A callback that has memory fits the root. -/
theorem Heap.fits_root {offers : Option ν → ν → Populate ν → Prop} {h : Heap ν} {self : Addr}
    {o : Obj ν} {listed : List Addr} {p : Populate ν} (cell : h.cells self = some o)
    (impl : o.impl = .root listed) (grows : ∀ i, p.grows i = true) :
    h.Fits offers (.getChildren self p) := by
  intro o' cell'
  obtain rfl := Option.some.inj (cell.symm.trans cell')
  rw [impl]
  exact grows

/-- A callback that is offered to a node fits it. -/
theorem Heap.fits_node {offers : Option ν → ν → Populate ν → Prop} {h : Heap ν} {self : Addr}
    {o : Obj ν} {v : ν} {p : Populate ν} (cell : h.cells self = some o) (impl : o.impl = .node v)
    (offered : offers (h.parentValue o) v p) : h.Fits offers (.getChildren self p) := by
  intro o' cell'
  obtain rfl := Option.some.inj (cell.symm.trans cell')
  rw [impl]
  exact offered

/-- What callbacks may do is determined, and they have memory. -/
structure Determined (offers : Option ν → ν → Populate ν → Prop) : Prop where
  grows : ∀ parent v p, offers parent v p → ∀ i, p.grows i = true
  same : ∀ parent v p p', offers parent v p → offers parent v p' →
    p.spawns = p'.spawns ∧ p.result = p'.result

/-- A node that is marked has the children that its callback creates, and one that is not has
none unless its callback fails. A root that is marked has handed over its transports. -/
structure SettledAt (offers : Option ν → ν → Populate ν → Prop) (h : Heap ν) (o : Obj ν) :
    Prop where
  filled : ∀ v, o.impl = .node v → o.populated = true →
    ∃ p, offers (h.parentValue o) v p ∧ p.result = .ok () ∧
      o.children.map h.valueAt = (p.spawns.map (·.value)).map some
  unfilled : ∀ v, o.impl = .node v → o.populated = false →
    o.children = [] ∨ ∃ p, offers (h.parentValue o) v p ∧ p.result ≠ .ok ()
  handed : ∀ listed, o.impl = .root listed → o.populated = true → listed = []

/-- All objects are settled. -/
def Settled (offers : Option ν → ν → Populate ν → Prop) (h : Heap ν) : Prop :=
  ∀ a o, h.cells a = some o → SettledAt offers h o

/-- An object that was not filled yet is settled. -/
theorem SettledAt.of_empty {offers : Option ν → ν → Populate ν → Prop} {h : Heap ν} {o : Obj ν}
    (empty : o.populated = false) (childless : o.children = []) : SettledAt offers h o := by
  refine ⟨fun v _ populated => ?_, fun v _ _ => .inl childless, fun listed _ populated => ?_⟩
  · rw [empty] at populated
    cases populated
  · rw [empty] at populated
    cases populated

section Runs

variable {offers : Option ν → ν → Populate ν → Prop} {h h' : Heap ν} {root self : Addr}
  {pending all pending' all' : List Addr}

/-- The parents of the objects that stay keep what is behind their base. -/
theorem Steady.parentValue (steady : Steady root self h h') (owned : Owned h root pending all)
    (owned' : Owned h' root pending' all') {a : Addr} {o o' : Obj ν} (cell : h.cells a = some o)
    (cell' : h'.cells a = some o')
    (parent : o'.parent = o.parent ∨ o.parent = none ∧ o'.parent = some root) :
    h'.parentValue o' = h.parentValue o := by
  rcases parent with same | ⟨none, taken⟩
  · rw [Heap.parentValue, Heap.parentValue, same]
    cases parent : o.parent with
    | none => rfl
    | some p =>
        obtain ⟨q, cellP, -⟩ := owned.parent_live cell parent
        obtain ⟨q', cellP', -⟩ := owned'.parent_live cell' (same.trans parent)
        exact steady.valueAt (owned.account.lt_fresh (owned.account.mem_of_cell cellP))
          (Option.isSome_of_mem cellP')
  · obtain ⟨r, cellR, impl⟩ := owned'.listed
    rw [Heap.parentValue, Heap.parentValue, none, taken]
    exact Heap.valueAt_root cellR impl

/-- The children that stay keep what is behind their base. -/
theorem Steady.childValues (steady : Steady root self h h') (owned : Owned h root pending all)
    (owned' : Owned h' root pending' all') {a : Addr} {o o' : Obj ν} (cell : h.cells a = some o)
    (cell' : h'.cells a = some o') (same : o'.children = o.children) :
    o'.children.map h'.valueAt = o.children.map h.valueAt := by
  rw [same]
  refine List.map_congr_left fun c child => ?_
  obtain ⟨k, cellC, -⟩ := owned.child_live cell child
  obtain ⟨k', cellC', -⟩ := owned'.child_live cell' (same ▸ child)
  exact steady.valueAt (owned.account.lt_fresh (owned.account.mem_of_cell cellC))
    (Option.isSome_of_mem cellC')

/-- An object that stays as it is stays settled. -/
theorem SettledAt.of_kept (steady : Steady root self h h') (owned : Owned h root pending all)
    (owned' : Owned h' root pending' all') {a : Addr} {o o' : Obj ν} (cell : h.cells a = some o)
    (cell' : h'.cells a = some o') (settled : SettledAt offers h o) (impl : o'.impl = o.impl)
    (children : o'.children = o.children) (populated : o'.populated = o.populated)
    (parent : o'.parent = o.parent ∨ o.parent = none ∧ o'.parent = some root) :
    SettledAt offers h' o' := by
  have sameParent := steady.parentValue owned owned' cell cell' parent
  refine ⟨?_, ?_, ?_⟩
  · intro v isNode marked
    rw [sameParent, steady.childValues owned owned' cell cell' children]
    exact settled.filled v (impl.symm.trans isNode) (populated.symm.trans marked)
  · intro v isNode unmarked
    rw [sameParent, children]
    exact settled.unfilled v (impl.symm.trans isNode) (populated.symm.trans unmarked)
  · intro listed isRoot marked
    exact settled.handed listed (impl.symm.trans isRoot) (populated.symm.trans marked)

/-- **The objects that a call does not concern stay settled**, and new ones are. It is left to
see to the object that is called. -/
theorem Settled.of_steady (settled : Settled offers h) (steady : Steady root self h h')
    (owned : Owned h root pending all) (owned' : Owned h' root pending' all')
    (own : ∀ o', h'.cells self = some o' → SettledAt offers h' o') : Settled offers h' := by
  intro a o' cell'
  by_cases isSelf : a = self
  · subst isSelf
    exact own o' cell'
  rcases Nat.lt_or_ge a h.fresh with old | behind
  · obtain ⟨o, cell, impl, children, populated, parent⟩ := steady.others a isSelf old o' cell'
    exact .of_kept steady owned owned' cell cell' (settled a o cell) impl children populated parent
  · obtain ⟨v, isChild⟩ := steady.new a behind (Option.isSome_of_mem cell')
    obtain rfl := Option.some.inj (cell'.symm.trans isChild)
    exact .of_empty rfl rfl

/-- Refreshing keeps all settled. -/
theorem Settled.refresh (settled : Settled offers h) (owned : Owned h root pending all)
    {o : Obj ν} (cell : h.cells self = some o) :
    ∃ h' all', h.refresh self = some h' ∧ h'.cells self = some o.emptied ∧
      Owned h' root pending all' ∧ Settled offers h' ∧ Steady root self h h' := by
  obtain ⟨gone, all', eq, -, owned'⟩ := owned.refresh cell
  have own := Heap.cells_set_self (h.without gone) self o.emptied
  have steady := owned.refresh_steady cell eq
  refine ⟨_, all', eq, own, owned', settled.of_steady steady owned owned' ?_, steady⟩
  intro o' cell'
  obtain rfl := Option.some.inj (own.symm.trans cell')
  exact .of_empty rfl rfl

/-- What the callback of an unfilled node creates is what the node lists. -/
theorem Settled.getChildren (determined : Determined offers) (settled : Settled offers h)
    (owned : Owned h root pending all) {o : Obj ν} (cell : h.cells self = some o) {v : ν}
    (impl : o.impl = .node v) (empty : o.populated = false) {p : Populate ν}
    (offered : offers (h.parentValue o) v p) :
    ∃ h' cs all', h.getChildren self p = some (h', Owned.listing p.result cs) ∧
      Owned h' root pending all' ∧ Settled offers h' ∧
      (p.result = .ok () → cs.map h'.valueAt = (p.spawns.map (·.value)).map some) := by
  have grows := determined.grows _ _ _ offered
  obtain ⟨h', added, all', capacity, eq, owned', own, change⟩ :=
    owned.getChildren_node cell impl empty p (outcome_grows grows _ _ _ _ _)
  have steady := owned.getChildren_steady cell eq
  have sameParent := steady.parentValue owned owned' cell own (.inl rfl)
  have values (succeeds : p.result = .ok ()) :
      (o.children ++ added).map h'.valueAt = (p.spawns.map (·.value)).map some := by
    have childless : o.children = [] := by
      apply ((settled self o cell).unfilled v impl empty).resolve_right
      rintro ⟨p', offered', fails⟩
      exact fails ((determined.same _ _ _ _ offered' offered).2.trans succeeds)
    rw [childless, List.nil_append, change.valueAt]
  refine ⟨h', o.children ++ added, all', eq, owned', settled.of_steady steady owned owned' ?_,
    values⟩
  intro o' cell'
  obtain rfl := Option.some.inj (own.symm.trans cell')
  refine ⟨fun v' isNode marked => ?_, fun v' isNode unmarked => .inr ⟨p, ?_, ?_⟩,
    fun listed isRoot _ => ?_⟩
  · obtain rfl := Impl.node.inj (impl.symm.trans isNode)
    have succeeds : p.result = .ok () := by
      cases result : p.result with
      | ok _ => rfl
      | error e =>
          rw [result] at marked
          cases marked
    refine ⟨p, ?_, succeeds, values succeeds⟩
    rwa [sameParent]
  · obtain rfl := Impl.node.inj (impl.symm.trans isNode)
    rwa [sameParent]
  · intro succeeds
    rw [succeeds] at unmarked
    cases unmarked
  · rw [impl] at isRoot
    cases isRoot

/-- The root lists its transports, and is marked. -/
theorem Settled.getChildren_root (settled : Settled offers h) (owned : Owned h root pending all)
    {o : Obj ν} (cell : h.cells root = some o) (empty : o.populated = false) {p : Populate ν}
    (grows : ∀ i, p.grows i = true) :
    ∃ h' all', h.getChildren root p = some (h', .ok (o.children ++ pending)) ∧
      Owned h' root [] all' ∧ Settled offers h' := by
  obtain ⟨h', all', capacity, eq, owned', fresh, own, kept⟩ :=
    owned.getChildren_root cell empty p (moved_grows grows _ _ _ _)
  have steady := owned.getChildren_steady cell eq
  rw [if_pos rfl, List.take_length] at eq
  refine ⟨h', all', eq, owned', settled.of_steady steady owned owned' ?_⟩
  intro o' cell'
  obtain rfl := Option.some.inj (own.symm.trans cell')
  exact ⟨nofun, nofun, fun listed isRoot _ => (Impl.root.inj isRoot).symm⟩

/-- **A call in this world keeps all settled.** -/
theorem Settled.call (determined : Determined offers) (settled : Settled offers h)
    (owned : Owned h root pending all) {c : Call ν} (live : h.Live c.self)
    (fits : h.Fits offers c) :
    ∃ h' pending' all', h.call c = some h' ∧ Owned h' root pending' all' ∧ Settled offers h' := by
  cases c with
  | refresh self =>
      obtain ⟨o, cell⟩ : ∃ o, h.cells self = some o := Option.isSome_iff_exists.mp live
      obtain ⟨h', all', eq, -, owned', settled', -⟩ := settled.refresh owned cell
      exact ⟨h', pending, all', eq, owned', settled'⟩
  | getChildren self p =>
      obtain ⟨o, cell⟩ : ∃ o, h.cells self = some o := Option.isSome_iff_exists.mp live
      have fit := fits o cell
      rw [Heap.call]
      cases populated : o.populated with
      | true =>
          exact ⟨h, pending, all, by rw [Owned.getChildren_populated cell populated]; rfl, owned,
            settled⟩
      | false =>
          by_cases isRoot : self = root
          · subst isRoot
            obtain ⟨r, cellR, implR⟩ := owned.listed
            obtain rfl := Option.some.inj (cell.symm.trans cellR)
            rw [implR] at fit
            obtain ⟨h', all', eq, owned', settled'⟩ :=
              settled.getChildren_root owned cell populated fit
            exact ⟨h', [], all', by rw [eq]; rfl, owned', settled'⟩
          · obtain ⟨v, impl⟩ := (owned.account.sound self o cell).isNode isRoot
            rw [impl] at fit
            obtain ⟨h', cs, all', eq, owned', settled', -⟩ :=
              settled.getChildren determined owned cell impl populated fit
            exact ⟨h', pending, all', by rw [eq]; rfl, owned', settled'⟩

/-- **A run in this world keeps all settled**, and the calls that follow are in this world. -/
theorem Settled.run (determined : Determined offers) (calls : List (Call ν)) {more : List (Call ν)}
    (settled : Settled offers h) (owned : Owned h root pending all)
    (unchanging : Unchanging offers (calls ++ more) h) (ran : Heap.run calls h = some h') :
    ∃ pending' all', Owned h' root pending' all' ∧ Settled offers h' ∧
      Unchanging offers more h' := by
  refine owned.run_keeps
    (motive := fun calls h => Settled offers h ∧ Unchanging offers (calls ++ more) h) ?_ ?_
    ⟨settled, unchanging⟩ ran
  · rintro c calls h h' pending all owned live called ⟨settled, unchanging⟩
    rw [List.cons_append, Unchanging, if_pos live] at unchanging
    obtain ⟨h₁, pending₁, all₁, called₁, -, settled₁⟩ :=
      settled.call determined owned live unchanging.1
    obtain rfl := Option.some.inj (called.symm.trans called₁)
    exact ⟨settled₁, unchanging.2 h' called⟩
  · rintro c calls h dead ⟨settled, unchanging⟩
    rw [List.cons_append, Unchanging, if_neg dead] at unchanging
    exact ⟨settled, unchanging⟩

/-- **A node that was listed lists the same after a refresh.** -/
theorem Settled.relisted (determined : Determined offers) (settled : Settled offers h)
    (owned : Owned h root pending all) {o : Obj ν} (cell : h.cells self = some o) {v : ν}
    (impl : o.impl = .node v) (populated : o.populated = true) {q : Populate ν}
    (fits : ∀ h', h.refresh self = some h' → h'.Fits offers (.getChildren self q)) :
    ∃ h₂ h₃ cs vs, h.refresh self = some h₂ ∧ h₂.getChildren self q = some (h₃, .ok cs) ∧
      o.children.map h.valueAt = List.map some vs ∧ cs.map h₃.valueAt = vs.map some := by
  obtain ⟨p, offered, succeeds, values⟩ := (settled self o cell).filled v impl populated
  obtain ⟨h₂, all₂, eq, cell₂, owned₂, settled₂, steady⟩ := settled.refresh owned cell
  have offered₂ := fits h₂ eq o.emptied cell₂
  simp only [Obj.emptied, impl] at offered₂
  obtain ⟨h₃, cs, all₃, listed, -, -, values₂⟩ :=
    settled₂.getChildren determined owned₂ cell₂ impl rfl offered₂
  -- The parent is the same, so the callback does what it did.
  have sameParent : h₂.parentValue o.emptied = h.parentValue o :=
    steady.parentValue owned owned₂ cell cell₂ (.inl rfl)
  have again : offers (h.parentValue o) v q := sameParent ▸ offered₂
  obtain ⟨spawns, result⟩ := determined.same _ _ _ _ again offered
  have succeeds₂ := result.trans succeeds
  rw [succeeds₂] at listed
  refine ⟨h₂, h₃, cs, p.spawns.map (·.value), eq, listed, values, ?_⟩
  rw [values₂ succeeds₂, spawns]

/-- The root lists nothing after a refresh. -/
theorem Settled.relisted_root (settled : Settled offers h) (owned : Owned h root pending all)
    {o : Obj ν} (cell : h.cells root = some o) (populated : o.populated = true) {q : Populate ν}
    (fits : ∀ h', h.refresh root = some h' → h'.Fits offers (.getChildren root q)) :
    ∃ h₂ h₃, h.refresh root = some h₂ ∧ h₂.getChildren root q = some (h₃, .ok []) := by
  obtain ⟨r, cellR, implR⟩ := owned.listed
  obtain rfl := Option.some.inj (cell.symm.trans cellR)
  obtain rfl := (settled root o cell).handed pending implR populated
  obtain ⟨h₂, all₂, eq, cell₂, owned₂, settled₂, -⟩ := settled.refresh owned cell
  have grows := fits h₂ eq o.emptied cell₂
  simp only [Obj.emptied, implR] at grows
  obtain ⟨h₃, all₃, listed, -, -⟩ := settled₂.getChildren_root owned₂ cell₂ rfl grows
  exact ⟨h₂, h₃, eq, listed⟩

/-- The root lists nothing exactly if it has no children and no transports are pending. -/
theorem Settled.lists_nothing_iff (settled : Settled offers h) (owned : Owned h root pending all)
    {o : Obj ν} (cell : h.cells root = some o) {p : Populate ν} {cs : List Addr}
    (fits : h.Fits offers (.getChildren root p))
    (listed : h.getChildren root p = some (h', .ok cs)) :
    cs = [] ↔ o.children = [] ∧ o.impl = .root [] := by
  obtain ⟨r, cellR, implR⟩ := owned.listed
  obtain rfl := Option.some.inj (cell.symm.trans cellR)
  cases populated : o.populated with
  | true =>
      rw [Owned.getChildren_populated cell populated] at listed
      obtain rfl := Except.ok.inj (Prod.mk.inj (Option.some.inj listed)).2
      obtain rfl := (settled root o cell).handed pending implR populated
      exact ⟨fun none => ⟨none, implR⟩, fun both => both.1⟩
  | false =>
      have grows := fits o cell
      rw [implR] at grows
      obtain ⟨h₁, all₁, eq, -, -⟩ := settled.getChildren_root owned cell populated grows
      obtain rfl := Except.ok.inj (Prod.mk.inj (Option.some.inj (eq.symm.trans listed))).2
      rw [List.append_eq_nil_iff, implR, Impl.root.injEq]

end Runs

/-- The new root and its transports are settled. -/
theorem rootCreate_settled (offers : Option ν → ν → Populate ν → Prop) (transports : List ν) :
    Settled offers (Heap.rootCreate transports).2 := by
  intro a o cell
  obtain ⟨impl, rfl, -⟩ := Heap.rootCreate_new cell
  exact .of_empty rfl rfl

/-! ## The nodes of the repository -/

/-- The kind and the name of an object. -/
def Heap.shown (h : Heap Node) (a : Addr) : Option (Kind × CStr) :=
  (h.cells a).map fun o =>
    match o.impl with
    | .root _ => (.root, [])
    | .node v => (v.kind, v.getName)

/-- Nodes are shown by what is behind their base. -/
theorem Heap.map_shown {h : Heap Node} {as : List Addr} {vs : List Node}
    (values : as.map h.valueAt = vs.map some) :
    as.map h.shown = vs.map fun v => some (v.kind, v.getName) := by
  have shows (a : Addr) (v : Node) (value : h.valueAt a = some v) :
      h.shown a = some (v.kind, v.getName) := by
    rw [Heap.valueAt] at value
    obtain ⟨o, cell, isNode⟩ := Option.bind_eq_some_iff.mp value
    rw [Heap.shown, cell, Option.map_some]
    cases impl : o.impl with
    | root listed =>
        rw [impl] at isNode
        cases isNode
    | node v' =>
        rw [impl] at isNode
        obtain rfl := Option.some.inj isNode
        rfl
  induction as generalizing vs with
  | nil =>
      obtain rfl := List.map_eq_nil_iff.mp values.symm
      rfl
  | cons a as ih =>
      obtain ⟨v, vs, rfl, value, rest⟩ := List.map_eq_cons_iff.mp values.symm
      rw [List.map_cons, List.map_cons, shows a v value.symm, ih rest.symm]

theorem offers_determined (w : World) : Determined (Offers w) :=
  ⟨fun _ _ _ offered => offered.grows, fun _ _ _ _ first second => first.determined second⟩

/-- **Listing, refreshing and listing again shows the same in an unchanged world, exactly if the
object is not the root**, or the root has nothing to list. -/
theorem relisted_iff (w : World) (transports : List Node) (calls : List (Call Node))
    {h h₁ : Heap Node} {self : Addr} {o : Obj Node} {p q : Populate Node} {cs : List Addr}
    (unchanging : Unchanging (Offers w)
      (calls ++ [.getChildren self p, .refresh self, .getChildren self q])
      (Heap.rootCreate transports).2)
    (ran : Heap.run calls (Heap.rootCreate transports).2 = some h) (cell : h.cells self = some o)
    (listed : h.getChildren self p = some (h₁, .ok cs)) :
    (∃ h₂ h₃ cs', h₁.refresh self = some h₂ ∧ h₂.getChildren self q = some (h₃, .ok cs') ∧
        cs'.map h₃.shown = cs.map h₁.shown) ↔
      (self = (Heap.rootCreate transports).1 → o.children = [] ∧ o.impl = .root []) := by
  have determined := offers_determined w
  obtain ⟨pending₀, created⟩ := rootCreate_owned transports
  obtain ⟨pending, all, owned, settled, unchanging⟩ :=
    (rootCreate_settled (Offers w) transports).run determined calls created unchanging ran
  -- The first listing.
  have live : h.Live self := Option.isSome_of_mem cell
  rw [Unchanging, if_pos (show h.Live (Call.self (.getChildren self p)) from live)] at unchanging
  have called : h.call (.getChildren self p) = some h₁ := by
    rw [Heap.call, listed]
    rfl
  obtain ⟨h₁', pending₁, all₁, called', owned₁, settled₁⟩ :=
    settled.call determined owned (c := .getChildren self p) live unchanging.1
  obtain rfl := Option.some.inj (called.symm.trans called')
  obtain ⟨o₁, cell₁, populated₁, rfl⟩ := Owned.cell_of_listed cell listed
  -- The calls that follow.
  have live₁ : h₁.Live self := Option.isSome_of_mem cell₁
  have after := unchanging.2 h₁ called
  rw [Unchanging, if_pos (show h₁.Live (Call.self (.refresh self)) from live₁)] at after
  have fits (h₂ : Heap Node) (refreshed : h₁.refresh self = some h₂) :
      h₂.Fits (Offers w) (.getChildren self q) := by
    have live₂ := (owned₁.refresh_steady cell₁ refreshed).own.1
    have last := after.2 h₂ refreshed
    rw [Unchanging, if_pos (show h₂.Live (Call.self (.getChildren self q)) from live₂)] at last
    exact last.1
  by_cases isRoot : self = (Heap.rootCreate transports).1
  · subst isRoot
    obtain ⟨h₂, h₃, refreshed, relisted⟩ := settled₁.relisted_root owned₁ cell₁ populated₁ fits
    have nothing := settled.lists_nothing_iff owned cell unchanging.1 listed
    constructor
    · rintro ⟨h₂', h₃', cs', refreshed', relisted', same⟩ -
      obtain rfl := Option.some.inj (refreshed.symm.trans refreshed')
      obtain ⟨rfl, none⟩ := Prod.mk.inj (Option.some.inj (relisted.symm.trans relisted'))
      obtain rfl := Except.ok.inj none
      exact nothing.mp (List.map_eq_nil_iff.mp same.symm)
    · intro none
      refine ⟨h₂, h₃, [], refreshed, relisted, ?_⟩
      rw [nothing.mpr (none rfl)]
      rfl
  · refine iff_of_true ?_ fun same => absurd same isRoot
    obtain ⟨v, impl⟩ := (owned₁.account.sound self o₁ cell₁).isNode isRoot
    obtain ⟨h₂, h₃, cs', vs, refreshed, relisted, before, values⟩ :=
      settled₁.relisted determined owned₁ cell₁ impl populated₁ fits
    refine ⟨h₂, h₃, cs', refreshed, relisted, ?_⟩
    rw [Heap.map_shown before, Heap.map_shown values]

/-- Nothing to be found: no overlay, no families, no directories. -/
def World.bare : World where
  base := []
  files := fun _ => .absent
  replies := []
  entries := fun _ => none
  stat := fun _ => none
  isSymlink := fun _ => false

/-- A file system transport lists its mount point again. -/
theorem transport_relisted :
    let h := (Heap.rootCreate [Node.transport .sys]).2
    let p : Populate Node := ⟨(Node.transport .sys).spawns none, .ok (), fun _ => true⟩
    ∃ h₀ h₁ h₂ h₃ cs cs', h.getChildren 1 p = some (h₀, .ok [0]) ∧
      h₀.getChildren 0 p = some (h₁, .ok cs) ∧ h₁.refresh 0 = some h₂ ∧
      h₂.getChildren 0 p = some (h₃, .ok cs') ∧ cs'.map h₃.shown = cs.map h₁.shown := by
  intro h p
  have offered (parent : Option Node) : Offers .bare parent (.transport .sys) p :=
    ⟨fun _ => rfl, rfl, rfl⟩
  have unchanging : Unchanging (Offers .bare)
      ([.getChildren 1 p] ++ [.getChildren 0 p, .refresh 0, .getChildren 0 p]) h := by
    refine .cons (by rfl) (by rfl) (Heap.fits_root rfl rfl fun _ => rfl) ?_
    refine .cons (by rfl) (by rfl) (Heap.fits_node rfl rfl (offered _)) ?_
    refine .cons (by rfl) (by rfl) trivial ?_
    exact .cons (by rfl) (by rfl) (Heap.fits_node rfl rfl (offered _)) trivial
  obtain ⟨h₂, h₃, cs', again⟩ :=
    (relisted_iff .bare [.transport .sys] [.getChildren 1 p] unchanging rfl rfl rfl).mpr nofun
  exact ⟨_, _, h₂, h₃, _, cs', rfl, rfl, again⟩

/-- The root lists its transport once. -/
theorem root_relists_nothing :
    let h := (Heap.rootCreate [Node.netlink]).2
    let p : Populate Node := ⟨[], .ok (), fun _ => true⟩
    Unchanging (Offers .bare) [.getChildren 1 p, .refresh 1, .getChildren 1 p] h ∧
      ∃ h₁ h₂ h₃, h.getChildren 1 p = some (h₁, .ok [0]) ∧
        h₁.shown 0 = some (.transport, lit "netlink") ∧
        h₁.refresh 1 = some h₂ ∧ h₂.getChildren 1 p = some (h₃, .ok []) := by
  intro h p
  refine ⟨?_, _, _, _, rfl, rfl, rfl, rfl⟩
  refine .cons (by rfl) (by rfl) (Heap.fits_root rfl rfl fun _ => rfl) ?_
  refine .cons (by rfl) (by rfl) trivial ?_
  exact .cons (by rfl) (by rfl) (Heap.fits_root rfl rfl fun _ => rfl) trivial

end Ykern.Tree
