import Ykern.Tree.Objects

/-!
# The account of the objects

Every object but the root is held in one place: it is a child of one object, to which it
points, or it is a transport that the root has yet to hand over. The invariant says so with
two forests, that of the children of the root and that of the pending transports
(`Account`).

Destroying siblings of a forest frees everything in it, once (`Heap.destroyAll_held`). Around
any object the rest of a forest stays as it is when the children of the object are replaced
(`Account.focus`), and the objects that remain are accounted for when others are destroyed
(`Account.destroyed`).
-/

set_option autoImplicit false

namespace Ykern.Tree

open Forest Overlay

variable {ν : Type}

namespace Heap

/-- The links of the objects. -/
def links (h : Heap ν) : Links Addr := fun a => (h.cells a).map fun o => (o.parent, o.children)

theorem links_eq {h : Heap ν} {a : Addr} {o : Obj ν} (cell : h.cells a = some o) :
    h.links a = some (o.parent, o.children) := by
  rw [links, cell, Option.map_some]

theorem links_congr {h h' : Heap ν} {a : Addr} (same : h'.cells a = h.cells a) :
    h'.links a = h.links a := by
  rw [links, links, same]

/-- The object of a node that is held. -/
theorem exists_cell {h : Heap ν} {a : Addr} {parent : Option Addr} {cs : List Addr}
    (cell : h.links a = some (parent, cs)) :
    ∃ o, h.cells a = some o ∧ o.parent = parent ∧ o.children = cs := by
  obtain ⟨o, cell, same⟩ := Option.map_eq_some_iff.mp cell
  exact ⟨o, cell, (Prod.mk.inj same).1, (Prod.mk.inj same).2⟩

@[simp] theorem cells_set_self (h : Heap ν) (a : Addr) (o : Obj ν) :
    (h.set a o).cells a = some o := by
  simp [set]

theorem cells_set_of_ne (h : Heap ν) {a b : Addr} (o : Obj ν) (other : b ≠ a) :
    (h.set a o).cells b = h.cells b := by
  simp [set, other]

theorem set_eq_self {h : Heap ν} {a : Addr} {o : Obj ν} (cell : h.cells a = some o) :
    h.set a o = h := by
  simp [set, ← cell]

@[simp] theorem cells_create_self (h : Heap ν) (impl : Impl ν) :
    (h.create impl).2.cells h.fresh = some (.new impl) :=
  Function.update_self _ _ _

theorem cells_create_of_ne (h : Heap ν) {a : Addr} (impl : Impl ν) (other : a ≠ h.fresh) :
    (h.create impl).2.cells a = h.cells a :=
  Function.update_of_ne other _ _

/-! ## Destroying a forest -/

/-- Memory without these objects. -/
def without (h : Heap ν) (gone : List Addr) : Heap ν where
  cells a := if a ∈ gone then none else h.cells a
  fresh := h.fresh
  destroyed := h.destroyed ++ gone

theorem without_nil (h : Heap ν) : h.without [] = h := by
  simp [without]

theorem without_append (h : Heap ν) (gone more : List Addr) :
    (h.without gone).without more = h.without (gone ++ more) := by
  simp only [without, List.append_assoc, Heap.mk.injEq, and_true]
  funext a
  by_cases first : a ∈ gone
  · simp [first]
  · simp [first]

theorem cells_without {h : Heap ν} {gone : List Addr} {a : Addr} (stays : a ∉ gone) :
    (h.without gone).cells a = h.cells a :=
  if_neg stays

theorem cells_without_gone {h : Heap ν} {gone : List Addr} {a : Addr} (isGone : a ∈ gone) :
    (h.without gone).cells a = none :=
  if_pos isGone

theorem live_without (h : Heap ν) (gone : List Addr) (a : Addr) :
    (h.without gone).Live a ↔ h.Live a ∧ a ∉ gone := by
  by_cases isGone : a ∈ gone
  · simp [Live, cells_without_gone isGone, isGone]
  · simp [Live, cells_without isGone, isGone]

/-- An object that is written and freed is gone. -/
theorem free_set (h : Heap ν) (a : Addr) (o : Obj ν) : (h.set a o).free a = h.without [a] := by
  simp only [free, set, without, Heap.mk.injEq, and_true, Function.update_idem]
  funext b
  by_cases same : b = a
  · simp [same]
  · simp [same]

/-- **Destroying siblings frees all that they hold**, whatever else is in memory, and nothing
else. -/
theorem destroyAll_held {h : Heap ν} {parent : Option Addr} {as all : List Addr}
    (held : Held h.links parent as all)
    (nodes : ∀ a ∈ all, ∀ o, h.cells a = some o → ∃ v, o.impl = .node v) (nodup : all.Nodup)
    {depth : Nat} (deep : all.length ≤ depth) {h' : Heap ν}
    (same : ∀ a ∈ all, h'.cells a = h.cells a) :
    as.foldlM (destroyWithin depth) h' = some (h'.without all) := by
  induction held generalizing depth h' with
  | nil => rw [without_nil]; rfl
  | @cons parent a cs below rest others cell children siblings ihChildren ihSiblings =>
      obtain ⟨o, cellA, -, rfl⟩ := exists_cell cell
      obtain ⟨v, impl⟩ := nodes a (by simp) o cellA
      obtain ⟨nodupBelow, nodupOthers, apart⟩ := List.nodup_append.mp nodup
      obtain ⟨notOther, nodupOthers⟩ := List.nodup_cons.mp nodupOthers
      have notBelow : a ∉ below := fun member => apart a member a (by simp) rfl
      rw [List.length_append, List.length_cons] at deep
      obtain ⟨depth, rfl⟩ : ∃ d, depth = d + 1 := ⟨depth - 1, by omega⟩
      -- The children are destroyed first, then the object, then its siblings.
      have first : o.children.foldlM (destroyWithin depth) h' = some (h'.without below) := by
        apply ihChildren (fun b member => nodes b (by simp [member])) nodupBelow (by omega)
        intro b member
        exact same b (by simp [member])
      have one : destroyWithin (depth + 1) h' a = some (h'.without (below ++ [a])) := by
        have cellA' : h'.cells a = some o := (same a (by simp)).trans cellA
        rw [destroyWithin, dropChildrenWith, cellA']
        simp only [Option.bind_eq_bind, Option.bind_some, first]
        rw [destroyImplWith]
        simp only [set, Function.update_self, Option.bind_eq_bind, Option.bind_some, impl]
        rw [← without_append]
        exact congrArg some (free_set _ _ _)
      rw [List.foldlM_cons, one]
      simp only [Option.bind_eq_bind, Option.bind_some]
      rw [ihSiblings (fun b member => nodes b (by simp [member])) nodupOthers (by omega),
        without_append, List.append_assoc, List.singleton_append]
      intro b member
      have apartB : b ∉ below ++ [a] := by
        intro inside
        rcases List.mem_append.mp inside with inBelow | isA
        · exact apart b inBelow b (by simp [member]) rfl
        · rw [List.mem_singleton.mp isA] at member
          exact notOther member
      rw [cells_without apartB]
      exact same b (by simp [member])

end Heap

/-! ## The account of a heap -/

/-- What an array may grow to is larger. -/
theorem lt_grown {count capacity : Nat} (within : count ≤ capacity) :
    count < Heap.grown count capacity := by
  rw [Heap.grown]
  split
  · split <;> omega
  · omega

/-- The root has a list of transports and no other object does, the children are within the
array, and there is no array without children. -/
structure Sound (root a : Addr) (o : Obj ν) : Prop where
  isRoot : a = root → ∃ listed, o.impl = .root listed
  isNode : a ≠ root → ∃ v, o.impl = .node v
  within : o.children.length ≤ o.capacity
  spare : o.children = [] → o.capacity = 0

/-- All objects are those that the root and these transports hold, each once; the others that
were created were destroyed once. -/
structure Account (h : Heap ν) (root : Addr) (roots all : List Addr) : Prop where
  forest : Held h.links none (root :: roots) all
  sound : ∀ a o, h.cells a = some o → Sound root a o
  distinct : all.Nodup
  live : ∀ a, h.Live a ↔ a ∈ all
  created : ∀ a, a < h.fresh ↔ h.Live a ∨ a ∈ h.destroyed
  once : h.destroyed.Nodup
  gone : ∀ a ∈ h.destroyed, ¬h.Live a

namespace Account

variable {h h' : Heap ν} {root : Addr} {roots all : List Addr}

theorem mem_of_cell (account : Account h root roots all) {a : Addr} {o : Obj ν}
    (cell : h.cells a = some o) : a ∈ all :=
  (account.live a).mp (Option.isSome_of_mem cell)

theorem lt_fresh (account : Account h root roots all) {a : Addr} (member : a ∈ all) :
    a < h.fresh :=
  (account.created a).mpr (.inl ((account.live a).mpr member))

theorem fresh_notMem (account : Account h root roots all) : h.fresh ∉ all := by
  intro member
  exact Nat.lt_irrefl _ (account.lt_fresh member)

theorem fresh_notGone (account : Account h root roots all) : h.fresh ∉ h.destroyed := by
  intro isGone
  exact Nat.lt_irrefl _ ((account.created _).mpr (.inr isGone))

theorem root_mem (account : Account h root roots all) : root ∈ all :=
  account.forest.sublist.subset List.mem_cons_self

/-- There are fewer objects than were created. -/
theorem length_le (account : Account h root roots all) {part : List Addr} (sub : part ⊆ all)
    (nodup : part.Nodup) : part.length ≤ h.fresh := by
  have below : part ⊆ List.range h.fresh := by
    intro a member
    exact List.mem_range.mpr (account.lt_fresh (sub member))
  have := (nodup.subperm below).length_le
  rwa [List.length_range] at this

/-- Objects other than the root are nodes. -/
theorem nodes_of_notMem (account : Account h root roots all) {part : List Addr}
    (notRoot : root ∉ part) : ∀ a ∈ part, ∀ o, h.cells a = some o → ∃ v, o.impl = .node v := by
  intro a member o cell
  refine (account.sound a o cell).isNode ?_
  rintro rfl
  exact notRoot member

/-- **What is around an object**: the objects below it and the others. Its children can be
replaced. -/
theorem focus (account : Account h root roots all) {self : Addr} {o : Obj ν}
    (cell : h.cells self = some o) :
    ∃ below rest, Held h.links (some self) o.children below ∧ all.Perm (below ++ self :: rest) ∧
      self ∉ below ∧ self ∉ rest ∧ below.Nodup ∧ (∀ a ∈ below, a ∉ rest) ∧
      (∀ a ∈ below, a ∈ all) ∧ (∀ a ∈ rest, a ∈ all) ∧
      ∀ {links' : Links Addr} {cs' below' : List Addr}, links' self = some (o.parent, cs') →
        Held links' (some self) cs' below' → (∀ b ∈ rest, links' b = h.links b) →
          ∃ all', Held links' none (root :: roots) all' ∧ all'.Perm (below' ++ self :: rest) := by
  obtain ⟨p, cs, below, rest, linksSelf, held, perm, replace⟩ :=
    account.forest.focus (account.mem_of_cell cell)
  obtain ⟨rfl, rfl⟩ := Prod.mk.inj (Option.some.inj ((Heap.links_eq cell).symm.trans linksSelf))
  obtain ⟨nodupBelow, nodupRest, apart⟩ :=
    List.nodup_append.mp (perm.nodup_iff.mp account.distinct)
  refine ⟨below, rest, held, perm, ?_, (List.nodup_cons.mp nodupRest).1, nodupBelow, ?_, ?_, ?_,
    replace⟩
  · intro inBelow
    exact apart self inBelow self List.mem_cons_self rfl
  · intro a inBelow inRest
    exact apart a inBelow a (List.mem_cons_of_mem _ inRest) rfl
  · intro a inBelow
    exact perm.mem_iff.mpr (List.mem_append_left _ inBelow)
  · intro a inRest
    exact perm.mem_iff.mpr (List.mem_append_right _ (List.mem_cons_of_mem _ inRest))

/-- Objects below another are not the root. -/
theorem root_notMem_below (account : Account h root roots all) {self : Addr} {cs below : List Addr}
    (held : Held h.links (some self) cs below) : root ∉ below := by
  intro inBelow
  obtain ⟨ds, top⟩ := account.forest.siblings_parent root List.mem_cons_self
  obtain ⟨p, es, cell⟩ := held.below_parent rfl root inBelow
  cases (Prod.mk.inj (Option.some.inj (top.symm.trans cell))).1

/-- An object is written again, with the same links. -/
theorem write (account : Account h root roots all) {self : Addr} {o o' : Obj ν}
    (cell : h.cells self = some o) (sameParent : o'.parent = o.parent)
    (sameChildren : o'.children = o.children) (sound : Sound root self o') :
    Account (h.set self o') root roots all := by
  have links : (h.set self o').links = h.links := by
    funext a
    by_cases isSelf : a = self
    · subst isSelf
      rw [Heap.links_eq cell, Heap.links_eq (Heap.cells_set_self h a o'), sameParent, sameChildren]
    · exact Heap.links_congr (Heap.cells_set_of_ne h o' isSelf)
  have live (a : Addr) : (h.set self o').Live a ↔ h.Live a := by
    by_cases isSelf : a = self
    · subst isSelf
      simp [Heap.Live, cell]
    · simp [Heap.Live, Heap.cells_set_of_ne h o' isSelf]
  refine ⟨links ▸ account.forest, ?_, account.distinct, fun a => (live a).trans (account.live a),
    fun a => ?_, account.once, fun a isGone isLive => account.gone a isGone ((live a).mp isLive)⟩
  · intro a p cellA
    by_cases isSelf : a = self
    · subst isSelf
      rw [Heap.cells_set_self] at cellA
      exact Option.some.inj cellA ▸ sound
    · rw [Heap.cells_set_of_ne h o' isSelf] at cellA
      exact account.sound a p cellA
  · rw [live]
    exact account.created a

/-- **Objects are destroyed**: the account of those that remain. -/
theorem destroyed (account : Account h root roots all) {h' : Heap ν} {gone roots' all' : List Addr}
    (parts : all.Perm (gone ++ all')) (forest : Held h'.links none (root :: roots') all')
    (sound : ∀ a o, h'.cells a = some o → Sound root a o)
    (live : ∀ a, h'.Live a ↔ h.Live a ∧ a ∉ gone) (sameFresh : h'.fresh = h.fresh)
    (destroyed : h'.destroyed = h.destroyed ++ gone) : Account h' root roots' all' := by
  obtain ⟨nodupGone, nodup', apart⟩ := List.nodup_append.mp (parts.nodup_iff.mp account.distinct)
  have isLive {a : Addr} (isGone : a ∈ gone) : h.Live a :=
    (account.live a).mpr (parts.mem_iff.mpr (List.mem_append_left _ isGone))
  refine ⟨forest, sound, nodup', ?_, ?_, ?_, ?_⟩
  · intro a
    rw [live, account.live, parts.mem_iff, List.mem_append]
    constructor
    · rintro ⟨inGone | remains, notGone⟩
      · exact absurd inGone notGone
      · exact remains
    · intro remains
      exact ⟨.inr remains, fun inGone => apart a inGone a remains rfl⟩
  · intro a
    rw [sameFresh, destroyed, live, List.mem_append, account.created a]
    constructor
    · rintro (lives | before)
      · by_cases inGone : a ∈ gone
        · exact .inr (.inr inGone)
        · exact .inl ⟨lives, inGone⟩
      · exact .inr (.inl before)
    · rintro (⟨lives, -⟩ | before | inGone)
      · exact .inl lives
      · exact .inr before
      · exact .inl (isLive inGone)
  · rw [destroyed]
    refine List.nodup_append.mpr ⟨account.once, nodupGone, ?_⟩
    rintro a before b inGone rfl
    exact account.gone a before (isLive inGone)
  · intro a isGone
    rw [destroyed] at isGone
    rw [live]
    rintro ⟨lives, notGone⟩
    rcases List.mem_append.mp isGone with before | inGone
    · exact account.gone a before lives
    · exact notGone inGone

end Account

end Ykern.Tree
