import Ykern.Tree.Calls
import Ykern.Tree.Nodes

/-!
# Trying again

When a callback fails, the children it appended before stay where they are, and the object is
not marked. The next time its children are asked for, the callback begins from the start and
appends behind them. The root loses the transports it could not take.

So an object recovers from a failed attempt exactly if it is not the root and has no children
then: there were none before, and the attempt appended none (`recovers_iff`).
-/

set_option autoImplicit false

namespace Ykern.Tree

open Forest Overlay

variable {ν : Type}

/-- No child is appended to an array without room: `realloc` fails for the first, and for each
that is tried after a failure that was ignored. -/
def NoneAppended (grows : Nat → Bool) : Nat → List (Spawn ν) → Prop
  | _, [] => True
  | i, s :: spawns =>
      grows i = false ∧ (s.ignored = true → NoneAppended grows (i + 1) spawns)

theorem outcome_nil_iff (grows : Nat → Bool) (result : Except Error Unit) (count i : Nat)
    (spawns : List (Spawn ν)) :
    (outcome grows result i count count spawns).1 = [] ↔ NoneAppended grows i spawns := by
  induction spawns generalizing i with
  | nil => exact iff_of_true rfl trivial
  | cons s spawns ih =>
      rw [outcome, NoneAppended]
      by_cases refused : grows i = false
      · rw [if_pos ⟨rfl, refused⟩]
        by_cases ignored : s.ignored = true
        · rw [if_pos ignored, ih]
          simp [refused, ignored]
        · rw [if_neg ignored]
          simp [refused, ignored]
      · rw [if_neg fun both => refused both.2]
        simp [refused]

/-- **What recovering from a failed attempt means.** The attempt left the children as they
were, and when the object is listed later, whatever was called on others before and if it was
refreshed or not, each child is there once: for the root its transports, for a node what its
callback appends. -/
def Recovers (h h₁ : Heap ν) (self : Addr) : Prop :=
  ∀ o, h.cells self = some o →
    (∃ o₁, h₁.cells self = some o₁ ∧ o₁.children = o.children) ∧
      ∀ calls h₂ o₂ p h₃ cs, (∀ c ∈ calls, ∀ p, c ≠ .getChildren self p) →
        Heap.run calls h₁ = some h₂ → h₂.cells self = some o₂ →
          h₂.getChildren self p = some (h₃, .ok cs) →
            match o.impl with
            | .root pending => cs = o.children ++ pending
            | .node _ => cs.map h₃.valueAt = (outcome p.grows p.result 0 o₂.children.length
                o₂.capacity p.spawns).1.map some

/-- A node that has no children, and is to be filled. -/
def Unfilled (h : Heap ν) (a : Addr) (v : ν) : Prop :=
  ∀ o, h.cells a = some o → o.impl = .node v ∧ o.children = [] ∧ o.populated = false

namespace Owned

variable {h h' : Heap ν} {root self : Addr} {pending all : List Addr} {o : Obj ν}

/-- A node stays unfilled until it is listed. -/
theorem unfilled_call (owned : Owned h root pending all) {c : Call ν} (live : h.Live c.self)
    (called : h.call c = some h') {a : Addr} {v : ν} (other : ∀ p, c ≠ .getChildren a p)
    (old : a < h.fresh) (unfilled : Unfilled h a v) : Unfilled h' a v := by
  intro o' cell'
  by_cases isSelf : a = c.self
  · cases c with
    | getChildren self p => exact absurd (by rw [isSelf]; rfl) (other p)
    | refresh self =>
        obtain rfl : a = self := isSelf
        obtain ⟨o, cell⟩ : ∃ o, h.cells a = some o := Option.isSome_iff_exists.mp live
        obtain ⟨gone, all', eq, -, -⟩ := owned.refresh cell
        obtain rfl := Option.some.inj (eq.symm.trans called)
        rw [Heap.cells_set_self] at cell'
        obtain rfl := Option.some.inj cell'
        exact ⟨(unfilled o cell).1, rfl, rfl⟩
  · obtain ⟨o, cell, impl, children, populated, -⟩ :=
      (owned.call_steady live called).others a isSelf old o' cell'
    obtain ⟨impl', children', populated'⟩ := unfilled o cell
    exact ⟨impl.trans impl', children.trans children', populated.trans populated'⟩

theorem unfilled_run (calls : List (Call ν)) (owned : Owned h root pending all) {a : Addr} {v : ν}
    (others : ∀ c ∈ calls, ∀ p, c ≠ .getChildren a p) (old : a < h.fresh)
    (unfilled : Unfilled h a v) (ran : Heap.run calls h = some h') : Unfilled h' a v := by
  have kept : ∃ pending' all', Owned h' root pending' all' ∧
      (∀ c ∈ ([] : List (Call ν)), ∀ p, c ≠ .getChildren a p) ∧ a < h'.fresh ∧
        Unfilled h' a v := by
    refine owned.run_keeps
      (motive := fun calls h => (∀ c ∈ calls, ∀ p, c ≠ .getChildren a p) ∧ a < h.fresh ∧
        Unfilled h a v) ?_ ?_ ⟨others, old, unfilled⟩ ran
    · rintro c calls h h' pending all owned live called ⟨others, old, unfilled⟩
      refine ⟨fun d member => others d (List.mem_cons_of_mem c member), ?_, ?_⟩
      · exact Nat.lt_of_lt_of_le old (owned.call_steady live called).later
      · exact owned.unfilled_call live called (others c List.mem_cons_self) old unfilled
    · rintro c calls h - ⟨others, still⟩
      exact ⟨fun d member => others d (List.mem_cons_of_mem c member), still⟩
  obtain ⟨pending', all', -, -, -, stays⟩ := kept
  exact stays

/-- The attempt of an object that was filled does not fail. -/
theorem populated_of_failed (cell : h.cells self = some o) {p : Populate ν} {e : Error}
    (failed : h.getChildren self p = some (h', .error e)) : o.populated = false := by
  cases populated : o.populated with
  | false => rfl
  | true =>
      rw [getChildren_populated cell populated] at failed
      cases (Prod.mk.inj (Option.some.inj failed)).2

/-- A node without children recovers from an attempt that appended none. -/
theorem recovers_node (owned : Owned h root pending all) (cell : h.cells self = some o) {v : ν}
    (impl : o.impl = .node v) {p : Populate ν} {e : Error}
    (failed : h.getChildren self p = some (h', .error e)) (childless : o.children = [])
    (none : NoneAppended p.grows 0 p.spawns) : Recovers h h' self := by
  have empty := populated_of_failed cell failed
  have spare := (owned.account.sound self o cell).spare childless
  have made : (outcome p.grows p.result 0 o.children.length o.capacity p.spawns).1 = [] := by
    rw [childless, spare, List.length_nil]
    exact (outcome_nil_iff p.grows p.result 0 0 p.spawns).mpr none
  obtain ⟨h₁, added, all₁, capacity, eq, owned₁, own, change⟩ :=
    owned.getChildren_node cell impl empty p rfl
  obtain ⟨rfl, fails⟩ := Prod.mk.inj (Option.some.inj (eq.symm.trans failed))
  have unmarked := listing_error fails
  obtain rfl : added = [] := by
    have length := congrArg List.length change.new
    rw [List.length_map, List.length_map, made, List.length_nil] at length
    exact List.length_eq_zero_iff.mp length
  intro o' cell'
  obtain rfl := Option.some.inj (cell.symm.trans cell')
  refine ⟨⟨_, own, List.append_nil _⟩, ?_⟩
  intro calls h₂ o₂ p₂ h₃ cs others ran cell₂ listed
  rw [impl]
  -- Whatever is called on others, the node stays without children.
  have unfilled₁ : Unfilled h₁ self v := by
    intro o₁ cell₁
    obtain rfl := Option.some.inj (own.symm.trans cell₁)
    refine ⟨impl, ?_, unmarked⟩
    rw [List.append_nil, childless]
  have old := owned₁.account.lt_fresh (owned₁.account.mem_of_cell own)
  obtain ⟨impl₂, children₂, empty₂⟩ :=
    owned₁.unfilled_run calls others old unfilled₁ ran o₂ cell₂
  obtain ⟨h₂', pending₂, all₂, ran', owned₂⟩ := owned₁.run calls
  obtain rfl := Option.some.inj (ran.symm.trans ran')
  obtain ⟨h₃', added₂, all₃, capacity₂, eq₂, -, -, change₂⟩ :=
    owned₂.getChildren_node cell₂ impl₂ empty₂ p₂ rfl
  obtain ⟨rfl, succeeds⟩ := Prod.mk.inj (Option.some.inj (eq₂.symm.trans listed))
  obtain ⟨-, rfl⟩ := listing_ok succeeds
  rw [children₂, List.nil_append]
  rw [children₂] at change₂
  exact change₂.valueAt

/-- A node with children, or to which the attempt appended some, does not recover. -/
theorem none_of_recovers (owned : Owned h root pending all) (cell : h.cells self = some o) {v : ν}
    (impl : o.impl = .node v) {p : Populate ν} {e : Error}
    (failed : h.getChildren self p = some (h', .error e)) (recovers : Recovers h h' self) :
    o.children = [] ∧ NoneAppended p.grows 0 p.spawns := by
  have empty := populated_of_failed cell failed
  obtain ⟨h₁, added, all₁, capacity, eq, owned₁, own, change⟩ :=
    owned.getChildren_node cell impl empty p rfl
  obtain ⟨rfl, fails⟩ := Prod.mk.inj (Option.some.inj (eq.symm.trans failed))
  obtain ⟨⟨o₁, cell₁, same⟩, later⟩ := recovers o cell
  obtain rfl := Option.some.inj (own.symm.trans cell₁)
  obtain rfl : added = [] := List.append_right_eq_self.mp same
  have made := List.map_eq_nil_iff.mp change.new.symm
  simp only [List.append_nil] at own
  -- The same children are produced again, and all can be appended.
  obtain ⟨h₂, added₂, all₂, capacity₂, eq₂, -, -, change₂⟩ :=
    owned₁.getChildren_node own impl (listing_error fails) ⟨p.spawns, .ok (), fun _ => true⟩ rfl
  have listed := later [] h₁ _ _ h₂ _ nofun rfl own (by
    rw [eq₂, outcome_grows fun _ => rfl]
    rfl)
  have childless : o.children = [] := by
    rw [impl] at listed
    have length := congrArg List.length listed
    have length₂ := congrArg List.length change₂.new
    simp only [List.length_map, List.length_append] at length length₂
    exact List.length_eq_zero_iff.mp (by omega)
  refine ⟨childless, (outcome_nil_iff p.grows p.result 0 0 p.spawns).mp ?_⟩
  rwa [childless, (owned.account.sound self o cell).spare childless, List.length_nil] at made

/-- The root does not recover from an attempt that fails. -/
theorem not_recovers_root (owned : Owned h root pending all) (cell : h.cells root = some o)
    {p : Populate ν} {e : Error} (failed : h.getChildren root p = some (h', .error e)) :
    ¬Recovers h h' root := by
  intro recovers
  have empty := populated_of_failed cell failed
  obtain ⟨r, cellR, implR⟩ := owned.listed
  obtain rfl := Option.some.inj (cell.symm.trans cellR)
  obtain ⟨h₁, all₁, capacity, eq, owned₁, -, own, -⟩ := owned.getChildren_root cell empty p rfl
  obtain ⟨rfl, fails⟩ := Prod.mk.inj (Option.some.inj (eq.symm.trans failed))
  generalize takes : moved p.grows 0 o.children.length o.capacity pending.length = taken at *
  have some : taken ≠ pending.length := by
    intro all
    rw [if_pos all] at fails
    cases fails
  obtain ⟨⟨o₁, cell₁, same⟩, later⟩ := recovers o cell
  obtain rfl := Option.some.inj (own.symm.trans cell₁)
  -- None was taken, and the next attempt finds nothing to take.
  have none : pending.take taken = [] := List.append_right_eq_self.mp same
  obtain ⟨h₂, all₂, capacity₂, eq₂, -⟩ :=
    owned₁.getChildren_root own (decide_eq_false some) p rfl
  have listed := later [] h₁ _ p h₂ o.children nofun rfl own (by
    rw [eq₂]
    simp [none, moved, listing])
  rw [implR] at listed
  have lost : pending = [] := List.append_right_eq_self.mp listed.symm
  subst lost
  exact some takes.symm

end Owned

/-- **An object recovers from a failed attempt exactly if it is not the root, had no children,
and the attempt appended none.** -/
theorem recovers_iff (transports : List ν) (calls : List (Call ν)) {h h' : Heap ν} {self : Addr}
    {o : Obj ν} {p : Populate ν} {e : Error}
    (ran : Heap.run calls (Heap.rootCreate transports).2 = some h) (cell : h.cells self = some o)
    (failed : h.getChildren self p = some (h', .error e)) :
    Recovers h h' self ↔
      self ≠ (Heap.rootCreate transports).1 ∧ o.children = [] ∧
        NoneAppended p.grows 0 p.spawns := by
  obtain ⟨pending₀, created⟩ := rootCreate_owned transports
  obtain ⟨h₁, pending, all, ran', owned⟩ := created.run calls
  obtain rfl := Option.some.inj (ran.symm.trans ran')
  by_cases isRoot : self = (Heap.rootCreate transports).1
  · subst isRoot
    exact iff_of_false (owned.not_recovers_root cell failed) fun conditions => conditions.1 rfl
  · obtain ⟨v, impl⟩ := (owned.account.sound self o cell).isNode isRoot
    constructor
    · intro recovers
      exact ⟨isRoot, owned.none_of_recovers cell impl failed recovers⟩
    · rintro ⟨-, childless, none⟩
      exact owned.recovers_node cell impl failed childless none

/-- The netlink transport recovers if its array of children cannot be allocated. -/
theorem netlink_recovers :
    let h := (Heap.rootCreate [Node.netlink]).2
    let p : Populate Node := ⟨ynlSpawns, .ok (), fun _ => false⟩
    ∃ h' e, h.getChildren 0 p = some (h', .error e) ∧ Recovers h h' 0 := by
  intro h p
  have none : NoneAppended p.grows 0 p.spawns := ⟨rfl, nofun⟩
  exact ⟨_, _, rfl, (recovers_iff [.netlink] [] rfl rfl rfl).mpr ⟨Nat.zero_ne_one, rfl, none⟩⟩

/-- The route namespace cannot be created. The generic namespace, which was appended before,
stays, and the next attempt appends another. -/
theorem netlink_lists_twice :
    let h := (Heap.rootCreate [Node.netlink]).2
    let failing : Populate Node :=
      ⟨ynlSpawns.take 1, .error ["ynetlink: failed to create rtnl namespace",
        "rtnl_namespace_create: calloc"], fun _ => true⟩
    ∃ h₁ h₂ e cs, h.getChildren 0 failing = some (h₁, .error e) ∧
      (h.cells 0).map (·.children) = some [] ∧ (h₁.cells 0).map (·.children) = some [2] ∧
      h₁.getChildren 0 ⟨ynlSpawns, .ok (), fun _ => true⟩ = some (h₂, .ok cs) ∧
      cs.map h₂.valueAt = [some .genlNamespace, some .genlNamespace, some .rtnlNamespace] ∧
      ¬Recovers h h₁ 0 := by
  intro h failing
  refine ⟨_, _, _, _, rfl, rfl, rfl, rfl, rfl, fun recovers => ?_⟩
  obtain ⟨⟨o₁, cell₁, same⟩, -⟩ := recovers _ rfl
  obtain rfl := Option.some.inj cell₁
  cases same

end Ykern.Tree
