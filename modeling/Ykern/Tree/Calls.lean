import Ykern.Tree.Ownership

/-!
# What a call leaves as it is

A call concerns the object it is made on, the objects that it creates below it, and those
that it destroys. Every other object stays as it is, but that the root may have taken it
(`Owned.call_steady`). In particular no object that stays changes what is behind its base
(`Steady.valueAt`).
-/

set_option autoImplicit false

namespace Ykern.Tree

open Forest Overlay

variable {ν : Type}

/-- What is behind the base of a node. -/
def Heap.valueAt (h : Heap ν) (a : Addr) : Option ν :=
  (h.cells a).bind fun o =>
    match o.impl with
    | .root _ => none
    | .node v => some v

theorem Heap.valueAt_root {h : Heap ν} {a : Addr} {o : Obj ν} {listed : List Addr}
    (cell : h.cells a = some o) (impl : o.impl = .root listed) : h.valueAt a = none := by
  rw [valueAt, cell, Option.bind_some, impl]

/-- Where a value is there is a node. -/
theorem Heap.cell_of_valueAt {h : Heap ν} {a : Addr} {v : ν} (value : h.valueAt a = some v) :
    ∃ o, h.cells a = some o ∧ o.impl = .node v := by
  obtain ⟨o, cell, isNode⟩ := Option.bind_eq_some_iff.mp value
  refine ⟨o, cell, ?_⟩
  split at isNode
  · cases isNode
  · next v' impl => rw [impl, Option.some.inj isNode]

theorem Heap.valueAt_congr {h h' : Heap ν} {a : Addr} {o o' : Obj ν} (cell : h.cells a = some o)
    (cell' : h'.cells a = some o') (same : o'.impl = o.impl) : h'.valueAt a = h.valueAt a := by
  rw [valueAt, valueAt, cell, cell', Option.bind_some, Option.bind_some, same]

/-- The new children have the values that the callback gave them. -/
theorem Added.valueAt {h h' : Heap ν} {parent : Addr} {added : List Addr} {values : List ν}
    (change : Added h h' parent added values) : added.map h'.valueAt = values.map some := by
  have through : added.map h'.valueAt = (added.map h'.cells).map fun cell => cell.bind fun o =>
      match o.impl with
      | .root _ => none
      | .node v => some v := by
    rw [List.map_map]
    rfl
  rw [through, change.new, List.map_map]
  rfl

/-- What a call on an object leaves of the others, and what it creates. -/
structure Steady (root object : Addr) (h h' : Heap ν) : Prop where
  later : h.fresh ≤ h'.fresh
  others : ∀ a, a ≠ object → a < h.fresh → Kept root h h' a
  own : h'.Live object ∧ h'.valueAt object = h.valueAt object
  new : ∀ a, h.fresh ≤ a → h'.Live a → ∃ v, h'.cells a = some (Heap.child object v)

namespace Steady

variable {h h' : Heap ν} {root self a : Addr}

/-- **What stays keeps what is behind its base.** -/
theorem valueAt (steady : Steady root self h h') (old : a < h.fresh) (live : h'.Live a) :
    h'.valueAt a = h.valueAt a := by
  by_cases isSelf : a = self
  · subst isSelf
    exact steady.own.2
  · obtain ⟨o', cell'⟩ := Option.isSome_iff_exists.mp live
    obtain ⟨o, cell, impl, -⟩ := steady.others a isSelf old o' cell'
    exact Heap.valueAt_congr cell cell' impl

/-- Nothing happened. -/
theorem refl {pending all : List Addr} (owned : Owned h root pending all) (live : h.Live self) :
    Steady root self h h := by
  refine ⟨Nat.le_refl _, fun a _ _ => .of_eq rfl, ⟨live, rfl⟩, fun a new isLive => ?_⟩
  exact absurd ((owned.account.created a).mpr (.inl isLive)) (Nat.not_lt_of_le new)

/-- Filling a node changes nothing else. -/
theorem of_added {o o' : Obj ν} (cell : h.cells self = some o) (cell' : h'.cells self = some o')
    (impl : o'.impl = o.impl) {added : List Addr} {values : List ν}
    (change : Added h h' self added values) : Steady root self h h' := by
  refine ⟨change.later, fun a other old => .of_eq (change.others a other old),
    ⟨Option.isSome_of_mem cell', Heap.valueAt_congr cell cell' impl⟩, fun a new live => ?_⟩
  have entry : h'.cells a ∈ added.map h'.cells := List.mem_map_of_mem (change.only a new live)
  rw [change.new] at entry
  obtain ⟨v, -, isChild⟩ := List.mem_map.mp entry
  exact ⟨v, isChild.symm⟩

end Steady

namespace Owned

variable {h h' : Heap ν} {root self : Addr} {pending all : List Addr} {o : Obj ν}

/-- Listing the children of an object changes no other. -/
theorem getChildren_steady (owned : Owned h root pending all) (cell : h.cells self = some o)
    {p : Populate ν} {result : Except Error (List Addr)}
    (called : h.getChildren self p = some (h', result)) : Steady root self h h' := by
  cases populated : o.populated with
  | true =>
      rw [getChildren_populated cell populated] at called
      obtain ⟨rfl, -⟩ := Prod.mk.inj (Option.some.inj called)
      exact .refl owned (Option.isSome_of_mem cell)
  | false =>
      by_cases isRoot : self = root
      · subst isRoot
        obtain ⟨h₁, all', capacity, eq, owned', fresh, own, kept⟩ :=
          owned.getChildren_root cell populated p rfl
        rw [eq] at called
        obtain ⟨rfl, -⟩ := Prod.mk.inj (Option.some.inj called)
        obtain ⟨r, cellR, implR⟩ := owned.listed
        refine ⟨Nat.le_of_eq fresh.symm, fun a other _ => kept a other,
          ⟨Option.isSome_of_mem own, ?_⟩, fun a new live => ?_⟩
        · rw [Heap.valueAt_root own rfl, Heap.valueAt_root cellR implR]
        · have before := (owned'.account.created a).mpr (.inl live)
          exact absurd (fresh ▸ before) (Nat.not_lt_of_le new)
      · obtain ⟨v, impl⟩ := (owned.account.sound self o cell).isNode isRoot
        obtain ⟨h₁, added, all', capacity, eq, -, own, change⟩ :=
          owned.getChildren_node cell impl populated p rfl
        rw [eq] at called
        obtain ⟨rfl, -⟩ := Prod.mk.inj (Option.some.inj called)
        exact .of_added cell own rfl change

/-- Refreshing an object destroys, but changes no other. -/
theorem refresh_steady (owned : Owned h root pending all) (cell : h.cells self = some o)
    (called : h.refresh self = some h') : Steady root self h h' := by
  obtain ⟨gone, all', eq, notSelf, owned'⟩ := owned.refresh cell
  rw [eq] at called
  obtain rfl := Option.some.inj called
  have own := Heap.cells_set_self (h.without gone) self o.emptied
  refine ⟨Nat.le_refl _, fun a other _ => ?_,
    ⟨Option.isSome_of_mem own, Heap.valueAt_congr cell own rfl⟩, fun a new live => ?_⟩
  · by_cases isGone : a ∈ gone
    · exact .of_gone ((Heap.cells_set_of_ne _ _ other).trans (Heap.cells_without_gone isGone))
    · exact .of_eq ((Heap.cells_set_of_ne _ _ other).trans (Heap.cells_without isGone))
  · exact absurd ((owned'.account.created a).mpr (.inl live)) (Nat.not_lt_of_le new)

/-- **A call changes only what it concerns.** -/
theorem call_steady (owned : Owned h root pending all) {c : Call ν} (live : h.Live c.self)
    (called : h.call c = some h') : Steady root c.self h h' := by
  cases c with
  | refresh self =>
      obtain ⟨o, cell⟩ : ∃ o, h.cells self = some o := Option.isSome_iff_exists.mp live
      exact owned.refresh_steady cell called
  | getChildren self p =>
      obtain ⟨o, cell⟩ : ∃ o, h.cells self = some o := Option.isSome_iff_exists.mp live
      obtain ⟨⟨h₁, result⟩, listed, rfl⟩ := Option.map_eq_some_iff.mp called
      exact owned.getChildren_steady cell listed

/-- **What is there after a call was there before, or the callback of the call created it.** -/
theorem call_origin (owned : Owned h root pending all) {c : Call ν} (live : h.Live c.self)
    (called : h.call c = some h') {a : Addr} {o' : Obj ν} (cell' : h'.cells a = some o') :
    (∃ o, h.cells a = some o ∧ (∀ v, o'.impl = .node v → o.impl = .node v) ∧
        (o'.parent = o.parent ∨ o.parent = none ∧ o'.parent = some root)) ∨
      ∃ self p v s, c = .getChildren self p ∧ h.valueAt self = some v ∧ s ∈ p.spawns ∧
        o' = Heap.child self s.value := by
  have steady := owned.call_steady live called
  obtain ⟨o, cell⟩ : ∃ o, h.cells c.self = some o := Option.isSome_iff_exists.mp live
  -- Other objects are kept. It is left to see to the object itself, and to new ones.
  have rest (own : ∀ o', h'.cells c.self = some o' →
        (∀ v, o'.impl = .node v → o.impl = .node v) ∧ o'.parent = o.parent)
      (new : h.fresh ≤ a → ∃ self p v s, c = .getChildren self p ∧ h.valueAt self = some v ∧
        s ∈ p.spawns ∧ o' = Heap.child self s.value) :
      (∃ o, h.cells a = some o ∧ (∀ v, o'.impl = .node v → o.impl = .node v) ∧
          (o'.parent = o.parent ∨ o.parent = none ∧ o'.parent = some root)) ∨
        ∃ self p v s, c = .getChildren self p ∧ h.valueAt self = some v ∧ s ∈ p.spawns ∧
          o' = Heap.child self s.value := by
    by_cases isSelf : a = c.self
    · subst isSelf
      obtain ⟨impl, parent⟩ := own o' cell'
      exact .inl ⟨o, cell, impl, .inl parent⟩
    rcases Nat.lt_or_ge a h.fresh with old | behind
    · obtain ⟨o₁, cell₁, impl, -, -, parent⟩ := steady.others a isSelf old o' cell'
      exact .inl ⟨o₁, cell₁, fun v isNode => impl.symm.trans isNode, parent⟩
    · exact .inr (new behind)
  -- Where nothing is created, no object is new.
  have nothingNew {pending' all' : List Addr} (owned' : Owned h' root pending' all')
      (fresh : h'.fresh = h.fresh) (behind : h.fresh ≤ a) : False := by
    have before := (owned'.account.created a).mpr (.inl (Option.isSome_of_mem cell'))
    exact absurd (fresh ▸ before) (Nat.not_lt_of_le behind)
  cases c with
  | refresh self =>
      obtain ⟨gone, all', eq, notSelf, owned'⟩ := owned.refresh cell
      obtain rfl := Option.some.inj (eq.symm.trans called)
      refine rest ?_ fun behind => (nothingNew owned' rfl behind).elim
      intro o' own
      obtain rfl := Option.some.inj ((Heap.cells_set_self _ _ _).symm.trans own)
      exact ⟨fun v isNode => isNode, rfl⟩
  | getChildren self p =>
      have cell : h.cells self = some o := cell
      obtain ⟨⟨h₁, result⟩, listed, rfl⟩ := Option.map_eq_some_iff.mp called
      cases populated : o.populated with
      | true =>
          rw [getChildren_populated cell populated] at listed
          obtain ⟨rfl, -⟩ := Prod.mk.inj (Option.some.inj listed)
          refine rest ?_ fun behind => (nothingNew owned rfl behind).elim
          intro o' own
          obtain rfl := Option.some.inj (cell.symm.trans own)
          exact ⟨fun v isNode => isNode, rfl⟩
      | false =>
          by_cases isRoot : self = root
          · subst isRoot
            obtain ⟨h', all', capacity, eq, owned', fresh, own, -⟩ :=
              owned.getChildren_root cell populated p rfl
            obtain ⟨rfl, -⟩ := Prod.mk.inj (Option.some.inj (eq.symm.trans listed))
            refine rest ?_ fun behind => (nothingNew owned' fresh behind).elim
            intro o' own'
            obtain rfl := Option.some.inj (own.symm.trans own')
            refine ⟨?_, rfl⟩
            intro v impossible
            cases impossible
          · obtain ⟨v, impl⟩ := (owned.account.sound self o cell).isNode isRoot
            obtain ⟨h', added, all', capacity, eq, -, own, change⟩ :=
              owned.getChildren_node cell impl populated p rfl
            obtain ⟨rfl, -⟩ := Prod.mk.inj (Option.some.inj (eq.symm.trans listed))
            refine rest ?_ fun behind => ?_
            · intro o' own'
              obtain rfl := Option.some.inj (own.symm.trans own')
              exact ⟨fun v isNode => isNode, rfl⟩
            · have entry : h'.cells a ∈ added.map h'.cells :=
                List.mem_map_of_mem (change.only a behind (Option.isSome_of_mem cell'))
              rw [change.new] at entry
              obtain ⟨w, made, isChild⟩ := List.mem_map.mp entry
              obtain ⟨s, member, rfl⟩ := mem_outcome made
              refine ⟨self, p, v, s, rfl, ?_, member, ?_⟩
              · rw [Heap.valueAt, cell, Option.bind_some, impl]
              · exact Option.some.inj (cell'.symm.trans isChild.symm)

/-- The parent of an object is there, and lists it. -/
theorem parent_live (owned : Owned h root pending all) {p : Addr} (cell : h.cells self = some o)
    (parent : o.parent = some p) : ∃ q, h.cells p = some q ∧ self ∈ q.children := by
  have member := owned.account.mem_of_cell cell
  rcases owned.account.forest.sibling_or_child self member with
    sibling | ⟨b, inAll, q, cs, links, child⟩
  · obtain ⟨cs, links⟩ := owned.account.forest.siblings_parent self sibling
    rw [Heap.links_eq cell, parent] at links
    cases (Prod.mk.inj (Option.some.inj links)).1
  · obtain ⟨-, ds, links'⟩ := owned.account.forest.parent_of_child inAll links child
    rw [Heap.links_eq cell, parent] at links'
    obtain rfl := Option.some.inj (Prod.mk.inj (Option.some.inj links')).1
    obtain ⟨b, cellB, -, rfl⟩ := Heap.exists_cell links
    exact ⟨b, cellB, child⟩

/-- The children of an object are there. -/
theorem child_live (owned : Owned h root pending all) (cell : h.cells self = some o) {c : Addr}
    (child : c ∈ o.children) : ∃ k, h.cells c = some k ∧ k.parent = some self := by
  obtain ⟨-, ds, links⟩ := owned.account.forest.parent_of_child (owned.account.mem_of_cell cell)
    (Heap.links_eq cell) child
  obtain ⟨k, cellC, parent, -⟩ := Heap.exists_cell links
  exact ⟨k, cellC, parent⟩

end Owned

/-! ## Calls along a run -/

/-- Every call of a run is as it may be in the state it is made in. -/
def Along (may : Heap ν → Call ν → Prop) : List (Call ν) → Heap ν → Prop
  | [], _ => True
  | c :: calls, h =>
      if h.Live c.self then may h c ∧ ∀ h', h.call c = some h' → Along may calls h'
      else Along may calls h

/-- A run, call by call. -/
theorem Along.cons {may : Heap ν → Call ν → Prop} {h h' : Heap ν} {c : Call ν}
    {calls : List (Call ν)} (live : h.Live c.self) (called : h.call c = some h') (first : may h c)
    (later : Along may calls h') : Along may (c :: calls) h := by
  rw [Along, if_pos live]
  refine ⟨first, ?_⟩
  intro h'' called'
  obtain rfl := Option.some.inj (called.symm.trans called')
  exact later

/-- **What calls keep that are as they may be is there after a run of them.** -/
theorem Owned.along_keeps {may : Heap ν → Call ν → Prop} {holds : Heap ν → Prop} {h h' : Heap ν}
    {root : Addr} {pending all : List Addr} {calls : List (Call ν)}
    (keeps : ∀ {c : Call ν} {h h' : Heap ν} {pending all : List Addr},
      Owned h root pending all → h.Live c.self → h.call c = some h' → may h c → holds h → holds h')
    (owned : Owned h root pending all) (start : holds h) (along : Along may calls h)
    (ran : Heap.run calls h = some h') :
    ∃ pending' all', Owned h' root pending' all' ∧ holds h' := by
  obtain ⟨pending', all', owned', held, -⟩ := owned.run_keeps
    (motive := fun calls h => holds h ∧ Along may calls h)
    (by
      intro c calls h h' pending all owned live called both
      obtain ⟨held, along⟩ := both
      rw [Along, if_pos live] at along
      exact ⟨keeps owned live called along.1 held, along.2 h' called⟩)
    (by
      intro c calls h dead both
      obtain ⟨held, along⟩ := both
      rw [Along, if_neg dead] at along
      exact ⟨held, along⟩)
    ⟨start, along⟩ ran
  exact ⟨pending', all', owned', held⟩

end Ykern.Tree
