import Ykern.Tree.Account

/-!
# Filling and dropping the children

What the operations do to memory, and that the account stays right.

A callback creates children and appends each (`Account.spawnAll`). Which are appended depends
on the callback and on the size of the array (`outcome`), and nothing that was there
before changes but the list of children (`Added`). The root hands over its pending
transports until one cannot be appended (`Account.movePending`). Refreshing destroys what is
below an object (`Account.refresh`).
-/

set_option autoImplicit false

namespace Ykern.Tree

open Forest Overlay

variable {ν : Type}

namespace Heap

variable {h : Heap ν} {self : Addr} {o : Obj ν}

theorem appendChild_eq (cell : h.cells self = some o) (grows : Bool) (child : Addr) :
    h.appendChild grows self child =
      if o.children.length = o.capacity ∧ grows = false then
        some (h, .error ["ykern_ycore_object_append_child: realloc failed"])
      else (h.cells child).bind fun c =>
        some ((h.set child { c with parent := some self }).set self { o with
          children := o.children ++ [child]
          capacity := grown o.children.length o.capacity }, .ok ()) := by
  rw [appendChild, cell]
  rfl

/-! ## A new child -/

/-- A new child of this object. -/
def child (self : Addr) (v : ν) : Obj ν := { Obj.new (.node v) with parent := some self }

/-- Memory after a child was created and appended. -/
def spawned (h : Heap ν) (self : Addr) (o : Obj ν) (v : ν) : Heap ν :=
  { (h.set h.fresh (child self v)).set self { o with
      children := o.children ++ [h.fresh]
      capacity := grown o.children.length o.capacity } with
    fresh := h.fresh + 1 }

theorem cells_spawned_self (v : ν) : (h.spawned self o v).cells self = some { o with
    children := o.children ++ [h.fresh], capacity := grown o.children.length o.capacity } :=
  Function.update_self _ _ _

theorem cells_spawned_fresh (old : self ≠ h.fresh) (v : ν) :
    (h.spawned self o v).cells h.fresh = some (child self v) := by
  simp [spawned, set, Function.update_of_ne old.symm]

theorem cells_spawned_of_ne {a : Addr} (notSelf : a ≠ self) (notFresh : a ≠ h.fresh) (v : ν) :
    (h.spawned self o v).cells a = h.cells a := by
  simp [spawned, set, Function.update_of_ne notSelf, Function.update_of_ne notFresh]

/-- A child is created and appended. -/
theorem append_created (cell : h.cells self = some o) (old : self ≠ h.fresh) {grows : Bool}
    (room : ¬(o.children.length = o.capacity ∧ grows = false)) (v : ν) :
    (h.create (.node v)).2.appendChild grows self (h.create (.node v)).1 =
      some (h.spawned self o v, .ok ()) := by
  have cell' := (cells_create_of_ne h (.node v) old).trans cell
  have fresh : (h.create (.node v)).2.cells (h.create (.node v)).1 = some (.new (.node v)) :=
    cells_create_self h (.node v)
  rw [appendChild_eq cell', if_neg room, fresh, Option.bind_some]
  simp only [spawned, create, set, Function.update_idem, child]

/-- A child is created, and there is no room for it. -/
theorem append_refused (cell : h.cells self = some o) (old : self ≠ h.fresh) {grows : Bool}
    (full : o.children.length = o.capacity ∧ grows = false) (v : ν) :
    (h.create (.node v)).2.appendChild grows self (h.create (.node v)).1 =
      some ((h.create (.node v)).2,
        .error ["ykern_ycore_object_append_child: realloc failed"]) := by
  have cell' := (cells_create_of_ne h (.node v) old).trans cell
  rw [appendChild_eq cell', if_pos full]

/-- Memory after a child was created and destroyed. -/
def discarded (h : Heap ν) : Heap ν :=
  { h with
    cells := Function.update h.cells h.fresh none
    fresh := h.fresh + 1
    destroyed := h.destroyed ++ [h.fresh] }

/-- A new object is destroyed alone. -/
theorem destroy_created (h : Heap ν) (v : ν) :
    (h.create (.node v)).2.destroy (h.create (.node v)).1 = some h.discarded := by
  have cell := cells_create_self h (.node v)
  have alone : Held (h.create (.node v)).2.links none [h.fresh] [h.fresh] :=
    .leaf (links_eq cell)
  have isNode : ∀ a ∈ [h.fresh], ∀ o, (h.create (.node v)).2.cells a = some o →
      ∃ v, o.impl = .node v := by
    intro a member o cellA
    rw [List.mem_singleton.mp member, cell] at cellA
    exact ⟨v, (Option.some.inj cellA) ▸ rfl⟩
  have destroyed : [h.fresh].foldlM (destroyWithin (h.fresh + 1 + 1)) (h.create (.node v)).2 =
      some ((h.create (.node v)).2.without [h.fresh]) :=
    destroyAll_held alone isNode (List.nodup_singleton _) (by simp) fun _ _ => rfl
  rw [List.foldlM_cons] at destroyed
  refine (Option.bind_fun_some _).symm.trans (destroyed.trans (congrArg some ?_))
  simp only [without, discarded, create, set, Heap.mk.injEq, and_true]
  funext a
  by_cases isFresh : a = h.fresh
  · simp [isFresh]
  · simp [isFresh]

end Heap

namespace Account

variable {h : Heap ν} {root : Addr} {roots all : List Addr} {self : Addr} {o : Obj ν}

theorem ne_fresh (account : Account h root roots all) (cell : h.cells self = some o) :
    self ≠ h.fresh := by
  rintro rfl
  exact account.fresh_notMem (account.mem_of_cell cell)

/-- **A new child of an object is held by it.** -/
theorem spawned (account : Account h root roots all) (cell : h.cells self = some o) (v : ν) :
    ∃ all', Account (h.spawned self o v) root roots all' := by
  have old := account.ne_fresh cell
  have notFresh := account.fresh_notMem
  obtain ⟨below, rest, held, perm, notBelow, notRest, -, -, belowAll, restAll, replace⟩ :=
    account.focus cell
  have others {a : Addr} (other : a ≠ self) (inAll : a ∈ all) :
      (h.spawned self o v).cells a = h.cells a :=
    Heap.cells_spawned_of_ne other (fun same => notFresh (same ▸ inAll)) v
  have linksSelf : (h.spawned self o v).links self = some (o.parent, o.children ++ [h.fresh]) :=
    Heap.links_eq (Heap.cells_spawned_self v)
  have heldBelow : Held (h.spawned self o v).links (some self) o.children below := by
    refine held.congr fun a inBelow => Heap.links_congr (others ?_ (belowAll a inBelow))
    rintro rfl
    exact notBelow inBelow
  have heldFresh : Held (h.spawned self o v).links (some self) [h.fresh] [h.fresh] :=
    .leaf (Heap.links_eq (Heap.cells_spawned_fresh old v))
  obtain ⟨all', forest', perm'⟩ := replace linksSelf (heldBelow.append heldFresh) (by
    intro a inRest
    refine Heap.links_congr (others ?_ (restAll a inRest))
    rintro rfl
    exact notRest inRest)
  have permFresh : all'.Perm (h.fresh :: all) := by
    refine perm'.trans (List.Perm.trans ?_ (perm.symm.cons h.fresh))
    rw [List.append_assoc, List.singleton_append]
    exact List.perm_middle
  have live' (a : Addr) : (h.spawned self o v).Live a ↔ a = h.fresh ∨ h.Live a := by
    by_cases isSelf : a = self
    · subst isSelf
      simp [Heap.Live, Heap.cells_spawned_self, cell]
    by_cases isFresh : a = h.fresh
    · subst isFresh
      simp [Heap.Live, Heap.cells_spawned_fresh old]
    · simp [Heap.Live, Heap.cells_spawned_of_ne isSelf isFresh, isFresh]
  refine ⟨all', forest', ?_, ?_, ?_, ?_, account.once, ?_⟩
  · intro a o' cellA
    by_cases isSelf : a = self
    · subst isSelf
      rw [Heap.cells_spawned_self] at cellA
      obtain rfl := Option.some.inj cellA
      have soundSelf := account.sound a o cell
      refine ⟨soundSelf.isRoot, soundSelf.isNode, ?_, fun none => ?_⟩
      · rw [List.length_append, List.length_singleton]
        exact lt_grown soundSelf.within
      · exact absurd none (List.append_ne_nil_of_right_ne_nil _ (List.cons_ne_nil _ _))
    by_cases isFresh : a = h.fresh
    · subst isFresh
      rw [Heap.cells_spawned_fresh old] at cellA
      obtain rfl := Option.some.inj cellA
      refine ⟨fun isRoot => ?_, fun _ => ⟨v, rfl⟩, Nat.le_refl _, fun _ => rfl⟩
      exact absurd (isRoot ▸ account.root_mem) notFresh
    · rw [Heap.cells_spawned_of_ne isSelf isFresh] at cellA
      exact account.sound a o' cellA
  · exact permFresh.nodup_iff.mpr (List.nodup_cons.mpr ⟨notFresh, account.distinct⟩)
  · intro a
    rw [live', permFresh.mem_iff, List.mem_cons, account.live]
  · intro a
    show a < h.fresh + 1 ↔ (h.spawned self o v).Live a ∨ a ∈ h.destroyed
    rw [live', or_assoc, ← account.created a]
    exact Nat.lt_succ_iff_lt_or_eq.trans or_comm
  · intro a isGone
    rw [live']
    rintro (rfl | isLive)
    · exact account.fresh_notGone isGone
    · exact account.gone a isGone isLive

/-- A child that was destroyed at once leaves no trace but that. -/
theorem discarded (account : Account h root roots all) : Account h.discarded root roots all := by
  have notFresh := account.fresh_notMem
  have others {a : Addr} (other : a ≠ h.fresh) : h.discarded.cells a = h.cells a :=
    Function.update_of_ne other _ _
  have none : h.discarded.cells h.fresh = none := Function.update_self _ _ _
  have live (a : Addr) : h.discarded.Live a ↔ h.Live a := by
    by_cases isFresh : a = h.fresh
    · subst isFresh
      refine iff_of_false ?_ fun isLive => notFresh ((account.live _).mp isLive)
      simp [Heap.Live, none]
    · simp [Heap.Live, others isFresh]
  refine ⟨account.forest.congr ?_, ?_, account.distinct, fun a => (live a).trans (account.live a),
    ?_, ?_, ?_⟩
  · intro a member
    refine Heap.links_congr (others ?_)
    rintro rfl
    exact notFresh member
  · intro a o' cellA
    by_cases isFresh : a = h.fresh
    · rw [isFresh, none] at cellA
      cases cellA
    · rw [others isFresh] at cellA
      exact account.sound a o' cellA
  · intro a
    show a < h.fresh + 1 ↔ h.discarded.Live a ∨ a ∈ h.destroyed ++ [h.fresh]
    rw [live, List.mem_append, List.mem_singleton, ← or_assoc, ← account.created a]
    exact Nat.lt_succ_iff_lt_or_eq
  · refine List.nodup_append.mpr ⟨account.once, List.nodup_singleton _, ?_⟩
    rintro a isGone b isFresh rfl
    rw [List.mem_singleton.mp isFresh] at isGone
    exact account.fresh_notGone isGone
  · intro a isGone isLive
    rcases List.mem_append.mp isGone with before | isFresh
    · exact account.gone a before ((live a).mp isLive)
    · rw [List.mem_singleton.mp isFresh] at isLive
      exact notFresh ((account.live _).mp ((live _).mp isLive))

end Account

/-! ## What a callback creates -/

/-- From `h` to `h'` these children of the object were created, with these values, and no
other object changed. -/
structure Added (h h' : Heap ν) (parent : Addr) (added : List Addr) (values : List ν) : Prop where
  new : added.map h'.cells = values.map fun v => some (Heap.child parent v)
  recent : ∀ a ∈ added, h.fresh ≤ a ∧ a < h'.fresh
  only : ∀ a, h.fresh ≤ a → h'.Live a → a ∈ added
  others : ∀ a, a ≠ parent → a < h.fresh → h'.cells a = h.cells a
  later : h.fresh ≤ h'.fresh

namespace Added

variable {h h₁ h' : Heap ν} {self root : Addr} {added more roots all : List Addr}
  {values others : List ν} {o : Obj ν}

theorem refl (account : Account h root roots all) (self : Addr) : Added h h self [] [] := by
  refine ⟨rfl, nofun, ?_, fun _ _ _ => rfl, Nat.le_refl _⟩
  intro a new isLive
  exact absurd ((account.created a).mpr (.inl isLive)) (Nat.not_lt_of_le new)

theorem trans (first : Added h h₁ self added values) (second : Added h₁ h' self more others)
    (old : self < h.fresh) : Added h h' self (added ++ more) (values ++ others) := by
  have kept {a : Addr} (member : a ∈ added) : h'.cells a = h₁.cells a := by
    obtain ⟨new, within⟩ := first.recent a member
    exact second.others a (Nat.ne_of_gt (Nat.lt_of_lt_of_le old new)) within
  refine ⟨?_, ?_, ?_, ?_, Nat.le_trans first.later second.later⟩
  · rw [List.map_append, List.map_append, ← first.new, ← second.new]
    exact congrArg (· ++ _) (List.map_congr_left fun a member => kept member)
  · intro a member
    rcases List.mem_append.mp member with member | member
    · exact ⟨(first.recent a member).1, Nat.lt_of_lt_of_le (first.recent a member).2 second.later⟩
    · exact ⟨Nat.le_trans first.later (second.recent a member).1, (second.recent a member).2⟩
  · intro a new isLive
    by_cases before : a < h₁.fresh
    · have notSelf : a ≠ self := Nat.ne_of_gt (Nat.lt_of_lt_of_le old new)
      refine List.mem_append_left _ (first.only a new ?_)
      rwa [Heap.Live, ← second.others a notSelf before]
    · exact List.mem_append_right _ (second.only a (Nat.le_of_not_lt before) isLive)
  · intro a notSelf before
    exact (second.others a notSelf (Nat.lt_of_lt_of_le before first.later)).trans
      (first.others a notSelf before)

/-- The object itself is written again. -/
theorem write (change : Added h h' self added values) (old : self < h.fresh) (o' : Obj ν) :
    Added h (h'.set self o') self added values := by
  have same {a : Addr} (new : h.fresh ≤ a) : (h'.set self o').cells a = h'.cells a :=
    Heap.cells_set_of_ne _ _ (Nat.ne_of_gt (Nat.lt_of_lt_of_le old new))
  refine ⟨?_, change.recent, ?_, ?_, change.later⟩
  · rw [← change.new]
    exact List.map_congr_left fun a member => same (change.recent a member).1
  · intro a new isLive
    rw [Heap.Live, same new] at isLive
    exact change.only a new isLive
  · intro a notSelf before
    exact (Heap.cells_set_of_ne _ _ notSelf).trans (change.others a notSelf before)

/-- A new child was appended. -/
theorem spawned (account : Account h root roots all) (cell : h.cells self = some o) (v : ν) :
    Added h (h.spawned self o v) self [h.fresh] [v] := by
  have old := account.ne_fresh cell
  refine ⟨?_, ?_, ?_, ?_, Nat.le_succ _⟩
  · exact congrArg (fun c => [c]) (Heap.cells_spawned_fresh old v)
  · intro a member
    rw [List.mem_singleton.mp member]
    exact ⟨Nat.le_refl _, Nat.lt_succ_self _⟩
  · intro a new isLive
    by_contra notFresh
    have isNew : a ≠ h.fresh := fun same => notFresh (List.mem_singleton.mpr same)
    have notSelf : a ≠ self := by
      rintro rfl
      exact absurd (account.lt_fresh (account.mem_of_cell cell)) (Nat.not_lt_of_le new)
    rw [Heap.Live, Heap.cells_spawned_of_ne notSelf isNew] at isLive
    exact absurd ((account.created a).mpr (.inl isLive)) (Nat.not_lt_of_le new)
  · intro a notSelf before
    exact Heap.cells_spawned_of_ne notSelf (Nat.ne_of_lt before) v

/-- A child was created and destroyed. -/
theorem discarded (account : Account h root roots all) (self : Addr) :
    Added h h.discarded self [] [] := by
  refine ⟨rfl, nofun, ?_, fun a _ before => Function.update_of_ne (Nat.ne_of_lt before) _ _,
    Nat.le_succ _⟩
  intro a new isLive
  exfalso
  rcases Nat.lt_or_eq_of_le new with later | rfl
  · exact absurd ((account.discarded.created a).mpr (.inl isLive)) (Nat.not_lt_of_le later)
  · exact account.fresh_notMem ((account.discarded.live _).mp isLive)

end Added

/-- The values of the children that are appended when a callback creates these, and how it
ends. The array has this many entries and this capacity. -/
def outcome (grows : Nat → Bool) (result : Except Error Unit) :
    Nat → Nat → Nat → List (Spawn ν) → List ν × Except Error Unit
  | _, _, _, [] => ([], result)
  | i, count, capacity, s :: spawns =>
      if count = capacity ∧ grows i = false then
        if s.ignored then outcome grows result (i + 1) count capacity spawns
        else ([], .error (s.failure ++ ["ykern_ycore_object_append_child: realloc failed"]))
      else
        let rest := outcome grows result (i + 1) (count + 1) (Heap.grown count capacity) spawns
        (s.value :: rest.1, rest.2)

/-- If every growth succeeds, all children are appended. -/
theorem outcome_grows {grows : Nat → Bool} (succeeds : ∀ i, grows i = true)
    (result : Except Error Unit) (spawns : List (Spawn ν)) (i count capacity : Nat) :
    outcome grows result i count capacity spawns = (spawns.map (·.value), result) := by
  induction spawns generalizing i count capacity with
  | nil => rfl
  | cons s spawns ih =>
      rw [outcome, if_neg (by simp [succeeds]), ih]
      rfl

/-- Only children that the callback creates are appended. -/
theorem mem_outcome {grows : Nat → Bool} {result : Except Error Unit} {spawns : List (Spawn ν)}
    {i count capacity : Nat} {v : ν} (made : v ∈ (outcome grows result i count capacity spawns).1) :
    ∃ s ∈ spawns, s.value = v := by
  induction spawns generalizing i count capacity with
  | nil => cases made
  | cons s spawns ih =>
      have later {i count capacity : Nat}
          (made : v ∈ (outcome grows result i count capacity spawns).1) :
          ∃ s' ∈ s :: spawns, s'.value = v := by
        obtain ⟨s', member, same⟩ := ih made
        exact ⟨s', List.mem_cons_of_mem _ member, same⟩
      rw [outcome] at made
      split at made
      · split at made
        · exact later made
        · cases made
      · rcases List.mem_cons.mp made with rfl | behind
        · exact ⟨s, List.mem_cons_self, rfl⟩
        · exact later behind

/-- **What a callback does to memory**: the children it appends are new, and the account stays
right. -/
theorem Account.spawnAll {root self : Addr} {roots : List Addr} (grows : Nat → Bool)
    (result : Except Error Unit) (spawns : List (Spawn ν)) (i : Nat) {h : Heap ν} {all : List Addr}
    (account : Account h root roots all) {o : Obj ν} (cell : h.cells self = some o) :
    ∃ h' added all' capacity,
      h.spawnAll self grows result i spawns =
          some (h', (outcome grows result i o.children.length o.capacity spawns).2) ∧
        Account h' root roots all' ∧
        h'.cells self = some { o with children := o.children ++ added, capacity := capacity } ∧
        Added h h' self added (outcome grows result i o.children.length o.capacity spawns).1 := by
  induction spawns generalizing i h all o with
  | nil =>
      refine ⟨h, [], all, o.capacity, rfl, account, ?_, .refl account self⟩
      rw [cell, List.append_nil]
  | cons s spawns ih =>
      have old := account.lt_fresh (account.mem_of_cell cell)
      rw [Heap.spawnAll, outcome]
      by_cases full : o.children.length = o.capacity ∧ grows i = false
      · simp only [Heap.append_refused cell (account.ne_fresh cell) full, Heap.destroy_created,
          Option.bind_eq_bind, Option.bind_some, if_pos full]
        have cell' : h.discarded.cells self = some o :=
          (Function.update_of_ne (account.ne_fresh cell) _ _).trans cell
        have step := Added.discarded account self
        by_cases ignored : s.ignored = true
        · obtain ⟨h', added, all', capacity, eq, account', own, rest⟩ :=
            ih (i + 1) account.discarded cell'
          rw [if_pos ignored, if_pos ignored]
          exact ⟨h', added, all', capacity, eq, account', own, step.trans rest old⟩
        · rw [if_neg ignored, if_neg ignored]
          refine ⟨h.discarded, [], all, o.capacity, rfl, account.discarded, ?_, step⟩
          rw [cell', List.append_nil]
      · simp only [Heap.append_created cell (account.ne_fresh cell) full, Option.bind_eq_bind,
          Option.bind_some, if_neg full]
        obtain ⟨all₁, account₁⟩ := account.spawned cell s.value
        obtain ⟨h', added, all', capacity, eq, account', own, rest⟩ :=
          ih (i + 1) account₁ (Heap.cells_spawned_self s.value)
        rw [List.length_append, List.length_singleton] at eq rest
        refine ⟨h', h.fresh :: added, all', capacity, eq, account', ?_,
          (Added.spawned account cell s.value).trans rest old⟩
        rw [own, List.append_assoc, List.singleton_append]

/-! ## Handing over the pending transports -/

/-- What stays of an object when others are called: it is gone, or it is as before, but that
the root took it. -/
def Kept (root : Addr) (h h' : Heap ν) (a : Addr) : Prop :=
  ∀ o', h'.cells a = some o' → ∃ o, h.cells a = some o ∧ o'.impl = o.impl ∧
    o'.children = o.children ∧ o'.populated = o.populated ∧
      (o'.parent = o.parent ∨ o.parent = none ∧ o'.parent = some root)

namespace Kept

variable {root a : Addr} {h h₁ h' : Heap ν}

theorem of_eq (same : h'.cells a = h.cells a) : Kept root h h' a :=
  fun o' cell => ⟨o', same.symm.trans cell, rfl, rfl, rfl, .inl rfl⟩

theorem of_gone (gone : h'.cells a = none) : Kept root h h' a := by
  intro o' cell
  rw [gone] at cell
  cases cell

theorem trans (first : Kept root h h₁ a) (second : Kept root h₁ h' a) : Kept root h h' a := by
  intro o' cell'
  obtain ⟨o₁, cell₁, impl₁, children₁, populated₁, parent₁⟩ := second o' cell'
  obtain ⟨o, cell, impl, children, populated, parent⟩ := first o₁ cell₁
  refine ⟨o, cell, impl₁.trans impl, children₁.trans children, populated₁.trans populated, ?_⟩
  rcases parent₁ with same₁ | ⟨none₁, taken⟩
  · rcases parent with same | ⟨none, taken⟩
    · exact .inl (same₁.trans same)
    · exact .inr ⟨none, same₁.trans taken⟩
  · rcases parent with same | ⟨-, taken⟩
    · exact .inr ⟨same ▸ none₁, taken⟩
    · rw [none₁] at taken
      cases taken

end Kept

/-- Memory after a pending transport was appended to the root. -/
def Heap.handed (h : Heap ν) (root : Addr) (o : Obj ν) (p : Addr) (c : Obj ν) : Heap ν :=
  (h.set p { c with parent := some root }).set root { o with
    children := o.children ++ [p]
    capacity := Heap.grown o.children.length o.capacity }

theorem Heap.cells_handed_root (h : Heap ν) (root : Addr) (o : Obj ν) (p : Addr) (c : Obj ν) :
    (h.handed root o p c).cells root = some { o with
      children := o.children ++ [p], capacity := Heap.grown o.children.length o.capacity } :=
  Heap.cells_set_self _ _ _

theorem Heap.cells_handed_taken (h : Heap ν) {root p : Addr} (other : p ≠ root) (o c : Obj ν) :
    (h.handed root o p c).cells p = some { c with parent := some root } :=
  (Heap.cells_set_of_ne _ _ other).trans (Heap.cells_set_self _ _ _)

theorem Heap.cells_handed_of_ne (h : Heap ν) {root p a : Addr} (notRoot : a ≠ root)
    (notTaken : a ≠ p) (o c : Obj ν) : (h.handed root o p c).cells a = h.cells a :=
  (Heap.cells_set_of_ne _ _ notRoot).trans (Heap.cells_set_of_ne _ _ notTaken)

/-- **The root takes a transport**: it goes from the pending transports to the children. -/
theorem Account.handed {h : Heap ν} {root p : Addr} {pending all : List Addr} {o : Obj ν}
    (account : Account h root (p :: pending) all) (cell : h.cells root = some o) :
    ∃ c all', h.cells p = some c ∧ c.parent = none ∧ p ≠ root ∧
      Account (h.handed root o p c) root pending all' := by
  have siblings := account.forest.siblings_parent
  obtain ⟨csP, cellP⟩ := siblings p (by simp)
  obtain ⟨c, cellC, parentC, rfl⟩ := Heap.exists_cell cellP
  obtain ⟨csR, cellR⟩ := siblings root (by simp)
  obtain ⟨parentO, rfl⟩ := Prod.mk.inj (Option.some.inj ((Heap.links_eq cell).symm.trans cellR))
  have other : p ≠ root := by
    have nodup := account.forest.sublist.nodup account.distinct
    rintro rfl
    exact (List.nodup_cons.mp nodup).1 List.mem_cons_self
  have linksRoot : (h.handed root o p c).links root = some (none, o.children ++ [p]) := by
    rw [Heap.links_eq (h.cells_handed_root root o p c), parentO]
  have linksTaken : (h.handed root o p c).links p = some (some root, c.children) :=
    Heap.links_eq (h.cells_handed_taken other o c)
  obtain ⟨all', forest', perm⟩ := account.forest.adopt account.distinct cellR cellP linksRoot
    linksTaken fun a notRoot notTaken =>
      Heap.links_congr (h.cells_handed_of_ne notRoot notTaken o c)
  have live (a : Addr) : (h.handed root o p c).Live a ↔ h.Live a := by
    by_cases isRoot : a = root
    · subst isRoot
      simp [Heap.Live, h.cells_handed_root, cell]
    by_cases isTaken : a = p
    · subst isTaken
      simp [Heap.Live, h.cells_handed_taken other, cellC]
    · simp [Heap.Live, h.cells_handed_of_ne isRoot isTaken]
  refine ⟨c, all', cellC, parentC, other, forest', ?_, perm.nodup_iff.mpr account.distinct, ?_, ?_,
    account.once, fun a isGone isLive => account.gone a isGone ((live a).mp isLive)⟩
  · intro a o' cellA
    by_cases isRoot : a = root
    · subst isRoot
      rw [h.cells_handed_root] at cellA
      obtain rfl := Option.some.inj cellA
      have soundRoot := account.sound a o cell
      refine ⟨soundRoot.isRoot, soundRoot.isNode, ?_, fun none => ?_⟩
      · rw [List.length_append, List.length_singleton]
        exact lt_grown soundRoot.within
      · exact absurd none (List.append_ne_nil_of_right_ne_nil _ (List.cons_ne_nil _ _))
    by_cases isTaken : a = p
    · subst isTaken
      rw [h.cells_handed_taken other] at cellA
      obtain rfl := Option.some.inj cellA
      have soundTaken := account.sound a c cellC
      exact ⟨soundTaken.isRoot, soundTaken.isNode, soundTaken.within, soundTaken.spare⟩
    · rw [h.cells_handed_of_ne isRoot isTaken] at cellA
      exact account.sound a o' cellA
  · intro a
    rw [live, account.live, perm.mem_iff]
  · intro a
    show a < h.fresh ↔ (h.handed root o p c).Live a ∨ a ∈ h.destroyed
    rw [live, account.created]

/-- **The transports that are left are destroyed.** -/
theorem Account.surrendered {h : Heap ν} {root : Addr} {pending all : List Addr}
    (account : Account h root pending all) :
    ∃ gone all', h.destroyAll pending = some (h.without gone) ∧ root ∉ gone ∧
      Account (h.without gone) root [] all' := by
  obtain ⟨cs, below, gone, cell, children, siblings, rfl⟩ := account.forest.uncons
  obtain ⟨nodupBelow, nodupRest, apart⟩ := List.nodup_append.mp account.distinct
  obtain ⟨notRoot, nodupGone⟩ := List.nodup_cons.mp nodupRest
  have within : gone.length ≤ h.fresh :=
    account.length_le (fun a member => by simp [member]) nodupGone
  have stays {a : Addr} (member : a ∈ below ++ [root]) : a ∉ gone := by
    intro isGone
    rcases List.mem_append.mp member with inBelow | isRoot
    · exact apart a inBelow a (List.mem_cons_of_mem _ isGone) rfl
    · rw [List.mem_singleton.mp isRoot] at isGone
      exact notRoot isGone
  refine ⟨gone, below ++ [root], ?_, notRoot, account.destroyed ?_ ?_ ?_ ?_ rfl rfl⟩
  · exact Heap.destroyAll_held siblings (account.nodes_of_notMem notRoot) nodupGone
      (Nat.le_succ_of_le within) fun _ _ => rfl
  · have front : ((below ++ [root]) ++ gone).Perm (gone ++ (below ++ [root])) :=
      List.perm_append_comm
    simpa using front
  · refine .cons ((Heap.links_congr (Heap.cells_without notRoot)).trans cell)
      (children.congr fun a inBelow => ?_) (.nil _)
    exact Heap.links_congr (Heap.cells_without (stays (List.mem_append_left _ inBelow)))
  · intro a o cellA
    by_cases isGone : a ∈ gone
    · rw [Heap.cells_without_gone isGone] at cellA
      cases cellA
    · exact account.sound a o ((Heap.cells_without isGone).symm.trans cellA)
  · exact Heap.live_without h gone

/-- How many transports are handed over. -/
def moved (grows : Nat → Bool) : Nat → Nat → Nat → Nat → Nat
  | _, _, _, 0 => 0
  | i, count, capacity, n + 1 =>
      if count = capacity ∧ grows i = false then 0
      else moved grows (i + 1) (count + 1) (Heap.grown count capacity) n + 1

/-- If every growth succeeds, all transports are handed over. -/
theorem moved_grows {grows : Nat → Bool} (succeeds : ∀ i, grows i = true)
    (n i count capacity : Nat) : moved grows i count capacity n = n := by
  induction n generalizing i count capacity with
  | zero => rfl
  | succ n ih => rw [moved, if_neg (by simp [succeeds]), ih]

/-- **What the loop of the root does to memory.** -/
theorem Account.movePending {root : Addr} (grows : Nat → Bool) (pending : List Addr) (i : Nat)
    {h : Heap ν} {all : List Addr} (account : Account h root pending all) {o : Obj ν}
    (cell : h.cells root = some o) :
    ∃ h' all' capacity,
      h.movePending root grows i pending = some (h',
          if moved grows i o.children.length o.capacity pending.length = pending.length then .ok ()
          else .error ["root_populate_children: append failed",
            "ykern_ycore_object_append_child: realloc failed"]) ∧
        Account h' root [] all' ∧ h'.fresh = h.fresh ∧
        h'.cells root = some { o with
          children := o.children ++
            pending.take (moved grows i o.children.length o.capacity pending.length)
          capacity := capacity } ∧
        ∀ a, a ≠ root → Kept root h h' a := by
  induction pending generalizing i h all o with
  | nil =>
      refine ⟨h, all, o.capacity, rfl, account, rfl, ?_, fun a _ => .of_eq rfl⟩
      simpa using cell
  | cons p pending ih =>
      obtain ⟨c, all₁, cellC, parentC, other, account₁⟩ := account.handed cell
      rw [Heap.movePending, Heap.appendChild_eq cell, List.length_cons, moved]
      by_cases full : o.children.length = o.capacity ∧ grows i = false
      · obtain ⟨gone, all', destroyed, notGone, account'⟩ := account.surrendered
        simp only [if_pos full, Option.bind_eq_bind, Option.bind_some, destroyed]
        refine ⟨h.without gone, all', o.capacity, ?_, account', rfl, ?_, ?_⟩
        · rw [if_neg (Nat.succ_ne_zero _).symm]
        · rw [Heap.cells_without notGone, cell, List.take_zero, List.append_nil]
        · intro a _
          by_cases isGone : a ∈ gone
          · exact .of_gone (Heap.cells_without_gone isGone)
          · exact .of_eq (Heap.cells_without isGone)
      · obtain ⟨h', all', capacity, eq, account', fresh, own, kept⟩ :=
          ih (i + 1) account₁ (h.cells_handed_root root o p c)
        simp only [if_neg full, cellC, Option.bind_eq_bind, Option.bind_some]
        rw [List.length_append, List.length_singleton] at eq own
        refine ⟨h', all', capacity, ?_, account', fresh, ?_, ?_⟩
        · refine Eq.trans eq ?_
          simp only [Nat.add_right_cancel_iff]
        · rw [own, List.take_succ_cons, List.append_assoc, List.singleton_append]
        · intro a notRoot
          refine Kept.trans ?_ (kept a notRoot)
          by_cases isTaken : a = p
          · subst isTaken
            intro o' cell'
            rw [h.cells_handed_taken other] at cell'
            obtain rfl := Option.some.inj cell'
            exact ⟨c, cellC, rfl, rfl, rfl, .inr ⟨parentC, rfl⟩⟩
          · exact .of_eq (h.cells_handed_of_ne notRoot isTaken o c)

/-! ## Dropping the children -/

/-- An object whose children were dropped. -/
def Obj.emptied (o : Obj ν) : Obj ν := { o with children := [], capacity := 0, populated := false }

/-- **What refreshing does to memory**: what was below the object is gone. -/
theorem Account.refresh {h : Heap ν} {root self : Addr} {roots all : List Addr}
    (account : Account h root roots all) {o : Obj ν} (cell : h.cells self = some o) :
    ∃ gone all', h.refresh self = some ((h.without gone).set self o.emptied) ∧
      self ∉ gone ∧ root ∉ gone ∧ (∀ a ∈ o.children, a ∈ gone) ∧
        Account ((h.without gone).set self o.emptied) root roots all' := by
  obtain ⟨gone, rest, held, perm, notSelf, notRest, nodup, apart, goneAll, restAll, replace⟩ :=
    account.focus cell
  have notRoot := account.root_notMem_below held
  have within := account.length_le goneAll nodup
  have stays : (h.without gone).cells self = some o := (Heap.cells_without notSelf).trans cell
  have links' : ((h.without gone).set self o.emptied).links self = some (o.parent, []) :=
    Heap.links_eq (Heap.cells_set_self _ _ _)
  obtain ⟨all', forest', perm'⟩ := replace links' (.nil _) (by
    intro a inRest
    refine Heap.links_congr ((Heap.cells_set_of_ne _ _ ?_).trans (Heap.cells_without ?_))
    · rintro rfl
      exact notRest inRest
    · intro isGone
      exact apart a isGone inRest)
  refine ⟨gone, all', ?_, notSelf, notRoot, held.sublist.subset,
    account.destroyed (perm.trans (perm'.symm.append_left gone)) forest' ?_ ?_ rfl rfl⟩
  · have destroyed : o.children.foldlM (Heap.destroyWithin (h.fresh + 1)) h =
        some (h.without gone) :=
      Heap.destroyAll_held held (account.nodes_of_notMem notRoot) nodup (Nat.le_succ_of_le within)
        fun _ _ => rfl
    rw [Heap.refresh, Heap.dropChildren, Heap.dropChildrenWith, cell]
    simp only [Option.bind_eq_bind, Option.bind_some, destroyed, Heap.set, Function.update_self,
      Function.update_idem, Obj.emptied]
  · intro a o' cellA
    by_cases isSelf : a = self
    · subst isSelf
      rw [Heap.cells_set_self] at cellA
      obtain rfl := Option.some.inj cellA
      have sound := account.sound a o cell
      exact ⟨sound.isRoot, sound.isNode, Nat.le_refl _, fun _ => rfl⟩
    rw [Heap.cells_set_of_ne _ _ isSelf] at cellA
    by_cases isGone : a ∈ gone
    · rw [Heap.cells_without_gone isGone] at cellA
      cases cellA
    · exact account.sound a o' ((Heap.cells_without isGone).symm.trans cellA)
  · intro a
    rw [← Heap.live_without]
    by_cases isSelf : a = self
    · subst isSelf
      simp [Heap.Live, stays]
    · rw [Heap.Live, Heap.Live, Heap.cells_set_of_ne _ _ isSelf]

end Ykern.Tree
