import Ykern.Tree.Children

/-!
# Who holds the objects

Every object but the root is held in one place: it is a child of one object, to which it
points, or it is a transport that the root has yet to hand over. This holds when the root
was created, every call keeps it, so it holds in every state of a run, and when the root is
destroyed every object was destroyed once (`run_owned`).
-/

set_option autoImplicit false

namespace Ykern.Tree

open Forest Overlay

variable {ν : Type}

/-- The account of a heap between calls: the transports that are not handed over are those
that the root lists. -/
structure Owned (h : Heap ν) (root : Addr) (pending all : List Addr) : Prop where
  account : Account h root pending all
  listed : ∃ o, h.cells root = some o ∧ o.impl = .root pending

namespace Owned

variable {h : Heap ν} {root self : Addr} {pending all : List Addr} {o : Obj ν}

/-! ## What a call does -/

/-- What is listed when a callback ended so. -/
def listing : Except Error Unit → List Addr → Except Error (List Addr)
  | .ok (), cs => .ok cs
  | .error e, _ => .error ("ykern_ycore_object_get_children: populate failed" :: e)

theorem listing_ok {result : Except Error Unit} {cs listed : List Addr}
    (succeeds : listing result cs = .ok listed) : result = .ok () ∧ listed = cs := by
  cases result with
  | ok _ => exact ⟨rfl, (Except.ok.inj succeeds).symm⟩
  | error e => cases succeeds

theorem listing_error {result : Except Error Unit} {cs : List Addr} {e : Error}
    (fails : listing result cs = .error e) : result.isOk = false := by
  cases result with
  | ok _ => cases fails
  | error e => rfl

/-- Nothing is done for an object whose children are there. -/
theorem getChildren_populated (cell : h.cells self = some o) (populated : o.populated = true)
    (p : Populate ν) : h.getChildren self p = some (h, .ok o.children) := by
  rw [Heap.getChildren, cell]
  simp only [Option.bind_eq_bind, Option.bind_some, if_pos populated]

/-- An object whose children are not there is filled, and marked if that succeeds. -/
theorem getChildren_eq (cell : h.cells self = some o) (empty : o.populated = false)
    (p : Populate ν) {h' : Heap ν} {result : Except Error Unit}
    (filled : h.populateChildren self p = some (h', result)) {o' : Obj ν}
    (cell' : h'.cells self = some o') (empty' : o'.populated = false) :
    h.getChildren self p = some (h'.set self { o' with populated := result.isOk },
      listing result o'.children) := by
  rw [Heap.getChildren, cell]
  simp only [Option.bind_eq_bind, Option.bind_some, empty, Bool.false_eq_true, if_false, filled]
  cases result with
  | error e =>
      have unmarked : { o' with populated := false } = o' := by
        rw [← empty']
      have written := (congrArg (h'.set self) unmarked).trans (Heap.set_eq_self cell')
      exact congrArg (fun h => some (h, _)) written.symm
  | ok _ =>
      simp only [cell', Option.bind_some]
      rfl

theorem populateChildren_node (cell : h.cells self = some o) {v : ν} (impl : o.impl = .node v)
    (p : Populate ν) :
    h.populateChildren self p = h.spawnAll self p.grows p.result 0 p.spawns := by
  rw [Heap.populateChildren, cell]
  simp only [Option.bind_eq_bind, Option.bind_some, impl]

theorem populateChildren_root (cell : h.cells self = some o) {listed : List Addr}
    (impl : o.impl = .root listed) (p : Populate ν) {h' : Heap ν} {result : Except Error Unit}
    (moves : h.movePending self p.grows 0 listed = some (h', result)) {o' : Obj ν}
    (cell' : h'.cells self = some o') :
    h.populateChildren self p = some (h'.set self { o' with impl := .root [] }, result) := by
  rw [Heap.populateChildren, cell]
  simp only [Option.bind_eq_bind, Option.bind_some, impl, moves, Heap.clearPending, cell']

/-- An object that was listed is marked, and has what was listed. -/
theorem cell_of_listed (cell : h.cells self = some o) {p : Populate ν} {h' : Heap ν}
    {cs : List Addr} (listed : h.getChildren self p = some (h', .ok cs)) :
    ∃ o', h'.cells self = some o' ∧ o'.populated = true ∧ o'.children = cs := by
  cases populated : o.populated with
  | true =>
      rw [getChildren_populated cell populated] at listed
      obtain ⟨rfl, same⟩ := Prod.mk.inj (Option.some.inj listed)
      exact ⟨o, cell, populated, Except.ok.inj same⟩
  | false =>
      rw [Heap.getChildren, cell] at listed
      simp only [Option.bind_eq_bind, Option.bind_some, populated, Bool.false_eq_true,
        if_false] at listed
      obtain ⟨⟨h₁, result⟩, -, ended⟩ := Option.bind_eq_some_iff.mp listed
      cases result with
      | error e => cases (Prod.mk.inj (Option.some.inj ended)).2
      | ok _ =>
          obtain ⟨o₁, -, marked⟩ := Option.bind_eq_some_iff.mp ended
          obtain ⟨rfl, same⟩ := Prod.mk.inj (Option.some.inj marked)
          exact ⟨_, Heap.cells_set_self _ _ _, rfl, Except.ok.inj same⟩

/-- The root is the object that lists transports. -/
theorem root_iff (owned : Owned h root pending all) (cell : h.cells self = some o) :
    self = root ↔ ∀ v, o.impl ≠ .node v := by
  constructor
  · rintro rfl v isNode
    obtain ⟨listed, impl⟩ := (owned.account.sound self o cell).isRoot rfl
    rw [impl] at isNode
    cases isNode
  · intro notNode
    by_contra other
    obtain ⟨v, impl⟩ := (owned.account.sound self o cell).isNode other
    exact notNode v impl

/-- **The children of a node are listed**: those that were there and those that the callback
appends. -/
theorem getChildren_node (owned : Owned h root pending all) (cell : h.cells self = some o)
    {v : ν} (impl : o.impl = .node v) (empty : o.populated = false) (p : Populate ν)
    {made : List ν × Except Error Unit}
    (makes : outcome p.grows p.result 0 o.children.length o.capacity p.spawns = made) :
    ∃ h' added all' capacity,
      h.getChildren self p = some (h', listing made.2 (o.children ++ added)) ∧
        Owned h' root pending all' ∧
        h'.cells self = some { o with
          children := o.children ++ added, capacity := capacity, populated := made.2.isOk } ∧
        Added h h' self added made.1 := by
  subst makes
  have notRoot : self ≠ root := by
    intro isRoot
    exact (owned.root_iff cell).mp isRoot v impl
  have old := owned.account.lt_fresh (owned.account.mem_of_cell cell)
  obtain ⟨h', added, all', capacity, eq, account', own, change⟩ :=
    owned.account.spawnAll p.grows p.result p.spawns 0 cell
  have filled := (populateChildren_node cell impl p).trans eq
  have sound := account'.sound self _ own
  refine ⟨_, added, all', capacity, getChildren_eq cell empty p filled own empty, ⟨?_, ?_⟩,
    Heap.cells_set_self _ _ _, change.write old _⟩
  · exact account'.write own rfl rfl ⟨sound.isRoot, sound.isNode, sound.within, sound.spare⟩
  · obtain ⟨r, cellR, implR⟩ := owned.listed
    refine ⟨r, (Heap.cells_set_of_ne _ _ (Ne.symm notRoot)).trans ?_, implR⟩
    rw [change.others root (Ne.symm notRoot) (owned.account.lt_fresh owned.account.root_mem), cellR]

/-- **The children of the root are listed**: those that were there and the pending transports
that it can take. -/
theorem getChildren_root (owned : Owned h root pending all) (cell : h.cells root = some o)
    (empty : o.populated = false) (p : Populate ν) {taken : Nat}
    (takes : moved p.grows 0 o.children.length o.capacity pending.length = taken) :
    ∃ h' all' capacity,
      h.getChildren root p = some (h',
          listing (if taken = pending.length then .ok () else
              .error ["root_populate_children: append failed",
                "ykern_ycore_object_append_child: realloc failed"])
            (o.children ++ pending.take taken)) ∧
        Owned h' root [] all' ∧ h'.fresh = h.fresh ∧
        h'.cells root = some { o with
          impl := .root []
          children := o.children ++ pending.take taken
          capacity := capacity
          populated := decide (taken = pending.length) } ∧
        ∀ a, a ≠ root → Kept root h h' a := by
  subst takes
  obtain ⟨r, cellR, implR⟩ := owned.listed
  obtain rfl := Option.some.inj (cell.symm.trans cellR)
  obtain ⟨h₁, all', capacity, eq, account₁, fresh, own, kept⟩ :=
    owned.account.movePending p.grows pending 0 cell
  generalize pending.take (moved p.grows 0 o.children.length o.capacity pending.length) = now at *
  have sound := account₁.sound root _ own
  have filled := populateChildren_root cell implR p eq own
  have cell₂ := Heap.cells_set_self h₁ root
    { o with impl := .root [], children := o.children ++ now, capacity := capacity }
  have account₂ : Account (h₁.set root
      { o with impl := .root [], children := o.children ++ now, capacity := capacity })
      root [] all' :=
    account₁.write own rfl rfl
      ⟨fun _ => ⟨[], rfl⟩, fun other => absurd rfl other, sound.within, sound.spare⟩
  refine ⟨_, all', capacity, getChildren_eq cell empty p filled cell₂ empty, ⟨?_, ?_⟩, fresh,
    ?_, ?_⟩
  · exact account₂.write cell₂ rfl rfl
      ⟨fun _ => ⟨[], rfl⟩, fun other => absurd rfl other, sound.within, sound.spare⟩
  · exact ⟨_, Heap.cells_set_self _ _ _, rfl⟩
  · rw [Heap.cells_set_self]
    split
    · rename_i same
      simp [Except.isOk, Except.toBool, same]
    · rename_i differ
      simp [Except.isOk, Except.toBool, differ]
  · intro a notRoot
    refine (kept a notRoot).trans (.of_eq ?_)
    rw [Heap.cells_set_of_ne _ _ notRoot, Heap.cells_set_of_ne _ _ notRoot]

/-- **Refreshing keeps the account.** -/
theorem refresh (owned : Owned h root pending all) (cell : h.cells self = some o) :
    ∃ gone all', h.refresh self = some ((h.without gone).set self o.emptied) ∧
      self ∉ gone ∧ Owned ((h.without gone).set self o.emptied) root pending all' := by
  obtain ⟨gone, all', eq, notSelf, notRoot, -, account'⟩ := owned.account.refresh cell
  refine ⟨gone, all', eq, notSelf, account', ?_⟩
  obtain ⟨r, cellR, implR⟩ := owned.listed
  by_cases isRoot : root = self
  · subst isRoot
    obtain rfl := Option.some.inj (cell.symm.trans cellR)
    exact ⟨_, Heap.cells_set_self _ _ _, implR⟩
  · refine ⟨r, ?_, implR⟩
    rw [Heap.cells_set_of_ne _ _ isRoot, Heap.cells_without notRoot, cellR]

/-! ## Runs -/

/-- **A call keeps the account.** -/
theorem call (owned : Owned h root pending all) {c : Call ν} (live : h.Live c.self) :
    ∃ h' pending' all', h.call c = some h' ∧ Owned h' root pending' all' := by
  cases c with
  | refresh self =>
      obtain ⟨o, cell⟩ := Option.isSome_iff_exists.mp live
      obtain ⟨gone, all', eq, -, owned'⟩ := owned.refresh cell
      exact ⟨_, pending, all', eq, owned'⟩
  | getChildren self p =>
      obtain ⟨o, cell⟩ : ∃ o, h.cells self = some o := Option.isSome_iff_exists.mp live
      rw [Heap.call]
      cases populated : o.populated with
      | true => exact ⟨h, pending, all, by rw [getChildren_populated cell populated]; rfl, owned⟩
      | false =>
          by_cases isRoot : self = root
          · subst isRoot
            obtain ⟨h', all', -, eq, owned', -⟩ := owned.getChildren_root cell populated p rfl
            exact ⟨h', [], all', by rw [eq]; rfl, owned'⟩
          · obtain ⟨v, impl⟩ := (owned.account.sound self o cell).isNode isRoot
            obtain ⟨h', added, all', -, eq, owned', -⟩ :=
              owned.getChildren_node cell impl populated p rfl
            exact ⟨h', pending, all', by rw [eq]; rfl, owned'⟩

/-- **A run keeps the account.** -/
theorem run (calls : List (Call ν)) (owned : Owned h root pending all) :
    ∃ h' pending' all', Heap.run calls h = some h' ∧ Owned h' root pending' all' := by
  induction calls generalizing h pending all with
  | nil => exact ⟨h, pending, all, rfl, owned⟩
  | cons c calls ih =>
      rw [Heap.run]
      by_cases live : h.Live c.self
      · obtain ⟨h₁, pending₁, all₁, eq, owned₁⟩ := owned.call live
        rw [if_pos live, eq, Option.bind_some]
        exact ih owned₁
      · rw [if_neg live]
        exact ih owned

/-- **What every call keeps is there after a run.** It may be about the calls that are left. -/
theorem run_keeps {motive : List (Call ν) → Heap ν → Prop}
    (keeps : ∀ {c : Call ν} {calls : List (Call ν)} {h h' : Heap ν} {pending all : List Addr},
      Owned h root pending all → h.Live c.self → h.call c = some h' → motive (c :: calls) h →
        motive calls h')
    (skips : ∀ {c : Call ν} {calls : List (Call ν)} {h : Heap ν}, ¬h.Live c.self →
      motive (c :: calls) h → motive calls h)
    {calls : List (Call ν)} {h' : Heap ν} (owned : Owned h root pending all)
    (start : motive calls h) (ran : Heap.run calls h = some h') :
    ∃ pending' all', Owned h' root pending' all' ∧ motive [] h' := by
  induction calls generalizing h pending all with
  | nil =>
      obtain rfl := Option.some.inj ran
      exact ⟨pending, all, owned, start⟩
  | cons c calls ih =>
      rw [Heap.run] at ran
      by_cases live : h.Live c.self
      · obtain ⟨h₁, pending₁, all₁, eq, owned₁⟩ := owned.call live
        rw [if_pos live, eq, Option.bind_some] at ran
        exact ih owned₁ (keeps owned live eq start) ran
      · rw [if_neg live] at ran
        exact ih owned (skips live start) ran

end Owned

/-! ## The new root -/

theorem Heap.createAll_cons (v : ν) (vs : List ν) (h : Heap ν) :
    createAll (v :: vs) h = (h.fresh :: (createAll vs (h.create (.node v)).2).1,
      (createAll vs (h.create (.node v)).2).2) :=
  rfl

/-- The transports are created one after the other. -/
theorem Heap.createAll_spec (vs : List ν) (h : Heap ν) :
    (createAll vs h).1 = List.range' h.fresh vs.length ∧
      (createAll vs h).2.fresh = h.fresh + vs.length ∧
      (createAll vs h).2.destroyed = h.destroyed ∧
      (∀ a, a < h.fresh ∨ h.fresh + vs.length ≤ a → (createAll vs h).2.cells a = h.cells a) ∧
      (createAll vs h).1.map (createAll vs h).2.cells = vs.map fun v => some (.new (.node v)) := by
  induction vs generalizing h with
  | nil => exact ⟨rfl, rfl, rfl, fun _ _ => rfl, rfl⟩
  | cons v vs ih =>
      have first := cells_create_self h (.node v)
      have next : (h.create (.node v)).2.fresh = h.fresh + 1 := rfl
      have count : h.fresh + 1 + vs.length = h.fresh + (v :: vs).length :=
        Nat.succ_add_eq_add_succ _ _
      obtain ⟨eq, fresh, destroyed, apart', values⟩ := ih (h.create (.node v)).2
      rw [createAll_cons]
      generalize createAll vs (h.create (.node v)).2 = rest at *
      rw [next] at eq fresh apart'
      refine ⟨congrArg (h.fresh :: ·) eq, fresh.trans count, destroyed, ?_, ?_⟩
      · intro a outside
        refine (apart' a ?_).trans (cells_create_of_ne h (.node v) ?_)
        · rw [count]
          exact outside.imp_left Nat.lt_succ_of_lt
        · rintro rfl
          rcases outside with before | behind
          · exact Nat.lt_irrefl _ before
          · exact Nat.not_le_of_lt (Nat.lt_add_of_pos_right (Nat.succ_pos _)) behind
      · refine (List.map_cons).trans (congrArg₂ List.cons ?_ values)
        exact (apart' h.fresh (.inl (Nat.lt_succ_self _))).trans first

/-- The transports are new. -/
theorem Heap.createAll_new (vs : List ν) {h : Heap ν} {a : Addr} {o : Obj ν}
    (cell : (createAll vs h).2.cells a = some o) :
    h.cells a = some o ∨ ∃ v ∈ vs, o = .new (.node v) := by
  induction vs generalizing h with
  | nil => exact .inl cell
  | cons v vs ih =>
      rcases ih (h := (h.create (.node v)).2) cell with before | ⟨w, member, isNew⟩
      · by_cases isFresh : a = h.fresh
        · rw [isFresh, cells_create_self] at before
          exact .inr ⟨v, List.mem_cons_self, (Option.some.inj before).symm⟩
        · exact .inl ((cells_create_of_ne h (.node v) isFresh).symm.trans before)
      · exact .inr ⟨w, List.mem_cons_of_mem _ member, isNew⟩

/-- The root is created last. -/
theorem Heap.rootCreate_eq (transports : List ν) : rootCreate transports =
    (createAll transports empty).2.create (.root (createAll transports empty).1) :=
  rfl

/-- All objects are new, and the nodes are the transports. -/
theorem Heap.rootCreate_new {transports : List ν} {a : Addr} {o : Obj ν}
    (cell : (rootCreate transports).2.cells a = some o) :
    ∃ impl, o = .new impl ∧ ∀ v, impl = .node v → v ∈ transports := by
  rw [rootCreate_eq] at cell
  by_cases isRoot : a = (createAll transports empty).2.fresh
  · rw [isRoot, cells_create_self] at cell
    refine ⟨_, (Option.some.inj cell).symm, ?_⟩
    intro v impossible
    cases impossible
  · rw [cells_create_of_ne _ _ isRoot] at cell
    rcases createAll_new transports cell with before | ⟨v, member, rfl⟩
    · cases before
    · refine ⟨_, rfl, ?_⟩
      intro w same
      rwa [← Impl.node.inj same]

/-- **The new root holds its transports**, and nothing else is in memory. -/
theorem rootCreate_owned (transports : List ν) :
    ∃ pending, Owned (Heap.rootCreate transports).2 (Heap.rootCreate transports).1 pending
      ((Heap.rootCreate transports).1 :: pending) := by
  obtain ⟨eq, fresh, destroyed, apart, values⟩ := Heap.createAll_spec transports Heap.empty
  rw [Heap.rootCreate_eq]
  generalize Heap.createAll transports Heap.empty = first at *
  obtain ⟨as, h⟩ := first
  simp only at eq fresh destroyed apart values ⊢
  have cellRoot := h.cells_create_self (.root as)
  have others {a : Addr} (other : a ≠ h.fresh) := h.cells_create_of_ne (.root as) other
  have within {a : Addr} (member : a ∈ as) : a < h.fresh := by
    rw [eq] at member
    rw [fresh]
    exact (List.mem_range'_1.mp member).2
  have cellOf {a : Addr} (member : a ∈ as) :
      ∃ v, (h.create (.root as)).2.cells a = some (.new (.node v)) := by
    have : h.cells a ∈ as.map h.cells := List.mem_map_of_mem member
    rw [values] at this
    obtain ⟨v, -, cell⟩ := List.mem_map.mp this
    exact ⟨v, (others (Nat.ne_of_lt (within member))).trans cell.symm⟩
  have none {a : Addr} (notRoot : a ≠ h.fresh) (notListed : a ∉ as) :
      (h.create (.root as)).2.cells a = none := by
    refine (others notRoot).trans (apart a (.inr ?_))
    rw [eq, List.mem_range'_1] at notListed
    exact Nat.le_of_not_lt fun before => notListed ⟨Nat.zero_le _, before⟩
  have live (a : Addr) : (h.create (.root as)).2.Live a ↔ a ∈ h.fresh :: as := by
    by_cases isRoot : a = h.fresh
    · simp [Heap.Live, isRoot, cellRoot]
    by_cases isListed : a ∈ as
    · obtain ⟨v, cell⟩ := cellOf isListed
      simp [Heap.Live, cell, isListed]
    · simp [Heap.Live, none isRoot isListed, isRoot, isListed]
  refine ⟨as, ⟨?_, ?_, ?_, live, ?_, ?_, ?_⟩, _, cellRoot, rfl⟩
  · refine .leaves fun a member => ?_
    rcases List.mem_cons.mp member with rfl | listed
    · exact Heap.links_eq cellRoot
    · obtain ⟨v, cell⟩ := cellOf listed
      exact Heap.links_eq cell
  · intro a o cell
    have member := (live a).mp (Option.isSome_of_mem cell)
    rcases List.mem_cons.mp member with rfl | listed
    · obtain rfl := Option.some.inj (cellRoot.symm.trans cell)
      exact ⟨fun _ => ⟨as, rfl⟩, fun other => absurd rfl other, Nat.le_refl _, fun _ => rfl⟩
    · obtain ⟨v, cellA⟩ := cellOf listed
      obtain rfl := Option.some.inj (cellA.symm.trans cell)
      exact ⟨fun isRoot => absurd isRoot (Nat.ne_of_lt (within listed)), fun _ => ⟨v, rfl⟩,
        Nat.le_refl _, fun _ => rfl⟩
  · refine List.nodup_cons.mpr ⟨fun member => Nat.lt_irrefl _ (within member), ?_⟩
    rw [eq]
    exact List.nodup_range'
  · intro a
    show a < h.fresh + 1 ↔ (h.create (.root as)).2.Live a ∨ a ∈ h.destroyed
    rw [live, destroyed, Nat.lt_succ_iff_lt_or_eq, List.mem_cons, eq, List.mem_range'_1, fresh]
    simp [Heap.empty, or_comm]
  · show h.destroyed.Nodup
    rw [destroyed]
    exact List.nodup_nil
  · intro a isGone
    have : a ∈ h.destroyed := isGone
    rw [destroyed] at this
    cases this

/-! ## One place for each object -/

/-- Where an object can be held: in the array of another, or in the list of the root. -/
inductive Place where
  | child (parent : Addr) (index : Nat)
  | pending (index : Nat)

/-- This place holds the object. -/
def Heap.Holds (h : Heap ν) (root a : Addr) : Place → Prop
  | .child parent index => ∃ o, h.cells parent = some o ∧ o.children[index]? = some a
  | .pending index => ∃ o listed, h.cells root = some o ∧ o.impl = .root listed ∧
      listed[index]? = some a

/-- The parent that an object points to. -/
def Heap.PointsTo (h : Heap ν) (a p : Addr) : Prop := ∃ o, h.cells a = some o ∧ o.parent = some p

/-- Every object but the root is in one place, children point to the object that has them,
arrays are not overrun, and no chain of parents comes back. -/
structure Heap.WellHeld (h : Heap ν) (root : Addr) : Prop where
  live : ∀ a place, h.Holds root a place → h.Live a
  one : ∀ a, h.Live a → a ≠ root → ∃! place, h.Holds root a place
  parent : ∀ a p i, h.Holds root a (.child p i) → h.PointsTo a p
  within : ∀ a o, h.cells a = some o → o.children.length ≤ o.capacity
  acyclic : ∀ a, ¬Relation.TransGen h.PointsTo a a

namespace Owned

variable {h : Heap ν} {root : Addr} {pending all : List Addr}

/-- What the array of an object has points to the object. -/
theorem of_child (owned : Owned h root pending all) {a p : Addr} {i : Nat}
    (held : h.Holds root a (.child p i)) : a ∈ all ∧ h.PointsTo a p := by
  obtain ⟨o, cell, entry⟩ := held
  obtain ⟨member, ds, cellA⟩ := owned.account.forest.parent_of_child
    (owned.account.mem_of_cell cell) (Heap.links_eq cell) (List.mem_of_getElem? entry)
  obtain ⟨c, cellC, parent, -⟩ := Heap.exists_cell cellA
  exact ⟨member, c, cellC, parent⟩

/-- What the root lists points to nothing. -/
theorem of_pending (owned : Owned h root pending all) {a : Addr} {i : Nat}
    (held : h.Holds root a (.pending i)) :
    pending[i]? = some a ∧ a ∈ all ∧ ∃ o, h.cells a = some o ∧ o.parent = none := by
  obtain ⟨o, _, cell, impl, entry⟩ := held
  obtain ⟨r, cellR, implR⟩ := owned.listed
  obtain rfl := Option.some.inj (cell.symm.trans cellR)
  obtain rfl := Impl.root.inj (impl.symm.trans implR)
  have member : a ∈ root :: _ := List.mem_cons_of_mem _ (List.mem_of_getElem? entry)
  obtain ⟨cs, cellA⟩ := owned.account.forest.siblings_parent a member
  obtain ⟨c, cellC, parent, -⟩ := Heap.exists_cell cellA
  exact ⟨entry, owned.account.forest.sublist.subset member, c, cellC, parent⟩

/-- An object is held once. -/
theorem place_unique (owned : Owned h root pending all) {a : Addr} {place place' : Place}
    (held : h.Holds root a place) (held' : h.Holds root a place') : place = place' := by
  have siblings := (owned.account.forest.sublist.nodup owned.account.distinct).of_cons
  cases place with
  | pending i =>
      obtain ⟨entry, -, o, cell, parent⟩ := owned.of_pending held
      cases place' with
      | pending j =>
          obtain ⟨entry', -⟩ := owned.of_pending held'
          have bound := (List.getElem?_eq_some_iff.mp entry).1
          have same := (List.getElem?_inj bound siblings).mp (entry.trans entry'.symm)
          exact congrArg Place.pending same
      | child p j =>
          obtain ⟨-, o', cell', parent'⟩ := owned.of_child held'
          rw [Option.some.inj (cell.symm.trans cell'), parent'] at parent
          cases parent
  | child p i =>
      obtain ⟨-, o, cell, parent⟩ := owned.of_child held
      cases place' with
      | pending j =>
          obtain ⟨-, -, o', cell', parent'⟩ := owned.of_pending held'
          rw [← Option.some.inj (cell.symm.trans cell'), parent] at parent'
          cases parent'
      | child q j =>
          obtain ⟨-, o', cell', parent'⟩ := owned.of_child held'
          rw [← Option.some.inj (cell.symm.trans cell'), parent] at parent'
          obtain rfl := Option.some.inj parent'
          obtain ⟨c, cellP, entry⟩ := held
          obtain ⟨c', cellP', entry'⟩ := held'
          obtain rfl := Option.some.inj (cellP.symm.trans cellP')
          have distinct := owned.account.forest.nodup_children owned.account.distinct
            (owned.account.mem_of_cell cellP) (Heap.links_eq cellP)
          have bound := (List.getElem?_eq_some_iff.mp entry).1
          have same := (List.getElem?_inj bound distinct).mp (entry.trans entry'.symm)
          exact congrArg (Place.child p) same

/-- Objects other than the root are held. -/
theorem exists_place (owned : Owned h root pending all) {a : Addr} (member : a ∈ all)
    (notRoot : a ≠ root) : ∃ place, h.Holds root a place := by
  rcases owned.account.forest.sibling_or_child a member with sibling | ⟨b, -, p, cs, cell, child⟩
  · rcases List.mem_cons.mp sibling with isRoot | listed
    · exact absurd isRoot notRoot
    · obtain ⟨i, entry⟩ := List.mem_iff_getElem?.mp listed
      obtain ⟨r, cellR, implR⟩ := owned.listed
      exact ⟨.pending i, r, pending, cellR, implR, entry⟩
  · obtain ⟨o, cellB, -, rfl⟩ := Heap.exists_cell cell
    obtain ⟨i, entry⟩ := List.mem_iff_getElem?.mp child
    exact ⟨.child b i, o, cellB, entry⟩

/-- **What the account says of the places.** -/
theorem wellHeld (owned : Owned h root pending all) : h.WellHeld root where
  live a place held := by
    apply (owned.account.live a).mpr
    cases place with
    | child p i => exact (owned.of_child held).1
    | pending i => exact (owned.of_pending held).2.1
  one a isLive notRoot := by
    obtain ⟨place, held⟩ := owned.exists_place ((owned.account.live a).mp isLive) notRoot
    exact ⟨place, held, fun place' held' => owned.place_unique held' held⟩
  parent a p i held := (owned.of_child held).2
  within a o cell := (owned.account.sound a o cell).within
  acyclic a cycle := by
    have links : Relation.TransGen (Parent h.links) a a := by
      refine Relation.TransGen.mono ?_ a a cycle
      rintro b p ⟨o, cell, parent⟩
      exact ⟨o.children, by rw [Heap.links_eq cell, parent]⟩
    obtain ⟨p, ⟨o, cell, -⟩, -⟩ := Relation.TransGen.head'_iff.mp cycle
    exact (owned.account.forest.ends nofun a (owned.account.mem_of_cell cell)).acyclic links

/-- The root is destroyed: first its children, then its pending transports, then itself. -/
theorem destroyWithin_root {o : Obj ν} {depth : Nat} {h₁ h₂ : Heap ν}
    (cell : h.cells root = some o) (impl : o.impl = .root pending)
    (children : o.children.foldlM (Heap.destroyWithin depth) h = some h₁)
    (left : pending.foldlM (Heap.destroyWithin depth)
      (h₁.set root { o with children := [], capacity := 0 }) = some h₂) :
    Heap.destroyWithin (depth + 1) h root = some (h₂.free root) := by
  rw [Heap.destroyWithin, Heap.dropChildrenWith, cell]
  simp only [Option.bind_eq_bind, Option.bind_some, children]
  rw [Heap.destroyImplWith, Heap.cells_set_self]
  simp only [Option.bind_eq_bind, Option.bind_some, impl]
  rw [← impl, left, Option.bind_some]

/-- **Destroying the root destroys everything**, once. -/
theorem destroy (owned : Owned h root pending all) :
    ∃ h', h.destroy root = some h' ∧ h'.fresh = h.fresh ∧ (∀ a, ¬h'.Live a) ∧
      h'.destroyed.Nodup ∧ ∀ a, a ∈ h'.destroyed ↔ a < h.fresh := by
  obtain ⟨o, cell, impl⟩ := owned.listed
  obtain ⟨cs, below, others, cellLinks, children, siblings, rfl⟩ := owned.account.forest.uncons
  obtain ⟨r, cellR, -, rfl⟩ := Heap.exists_cell cellLinks
  obtain rfl := Option.some.inj (cell.symm.trans cellR)
  have account := owned.account
  obtain ⟨nodupBelow, nodupRest, apart⟩ := List.nodup_append.mp account.distinct
  obtain ⟨notOther, nodupOthers⟩ := List.nodup_cons.mp nodupRest
  have notBelow := account.root_notMem_below children
  have withinBelow := account.length_le (fun a member => by simp [member]) nodupBelow
  have withinOthers := account.length_le (fun a member => by simp [member]) nodupOthers
  have first : o.children.foldlM (Heap.destroyWithin h.fresh) h = some (h.without below) :=
    Heap.destroyAll_held children (account.nodes_of_notMem notBelow) nodupBelow withinBelow
      fun _ _ => rfl
  obtain ⟨h₁, isEmptied⟩ :
    ∃ h₁, (h.without below).set root { o with children := [], capacity := 0 } = h₁ := ⟨_, rfl⟩
  have stays {a : Addr} (notRoot : a ≠ root) : h₁.cells a = (h.without below).cells a := by
    rw [← isEmptied, Heap.cells_set_of_ne _ _ notRoot]
  have second : pending.foldlM (Heap.destroyWithin h.fresh) h₁ = some (h₁.without others) := by
    refine Heap.destroyAll_held siblings (account.nodes_of_notMem notOther) nodupOthers withinOthers
      fun a member => (stays ?_).trans (Heap.cells_without ?_)
    · rintro rfl
      exact notOther member
    · intro inBelow
      exact apart a inBelow a (List.mem_cons_of_mem _ member) rfl
  have parts : (below ++ root :: others).Perm (below ++ others ++ [root]) := by
    simpa using (List.perm_append_singleton root others).symm.append_left below
  have destroyed : ((h₁.without others).free root).destroyed =
      h.destroyed ++ (below ++ others ++ [root]) := by
    rw [← isEmptied]
    simp [Heap.free, Heap.without, Heap.set]
  refine ⟨(h₁.without others).free root,
    destroyWithin_root cell impl first (by rw [isEmptied, second]), ?_, ?_, ?_, ?_⟩
  · rw [← isEmptied]
    rfl
  · intro a isLive
    have notRoot : a ≠ root := by
      rintro rfl
      simp [Heap.Live, Heap.free] at isLive
    have same : ((h₁.without others).free root).cells a = (h₁.without others).cells a :=
      Function.update_of_ne notRoot _ _
    rw [Heap.Live, same] at isLive
    obtain ⟨isLive, notOther⟩ := (Heap.live_without h₁ others a).mp isLive
    rw [Heap.Live, stays notRoot] at isLive
    obtain ⟨isLive, notBelow⟩ := (Heap.live_without h below a).mp isLive
    rcases List.mem_append.mp ((account.live a).mp isLive) with inBelow | inRest
    · exact notBelow inBelow
    · exact (List.mem_cons.mp inRest).elim notRoot notOther
  · rw [destroyed]
    refine List.nodup_append.mpr ⟨account.once, parts.nodup_iff.mp account.distinct, ?_⟩
    rintro a before b inAll rfl
    exact account.gone a before ((account.live a).mpr (parts.mem_iff.mpr inAll))
  · intro a
    rw [destroyed, List.mem_append, ← parts.mem_iff, ← account.live, account.created, or_comm]

end Owned

/-- **Every object is held in one place, in every state of a run, and destroyed once** when the
root is destroyed. -/
theorem run_owned (transports : List ν) (calls : List (Call ν)) :
    ∃ h, Heap.run calls (Heap.rootCreate transports).2 = some h ∧
      h.WellHeld (Heap.rootCreate transports).1 ∧
      ∃ h', h.destroy (Heap.rootCreate transports).1 = some h' ∧ h'.fresh = h.fresh ∧
        (∀ a, ¬h'.Live a) ∧ h'.destroyed.Nodup ∧ ∀ a, a ∈ h'.destroyed ↔ a < h.fresh := by
  obtain ⟨pending, created⟩ := rootCreate_owned transports
  obtain ⟨h, pending', all', eq, owned⟩ := created.run calls
  exact ⟨h, eq, owned.wellHeld, owned.destroy⟩

end Ykern.Tree
