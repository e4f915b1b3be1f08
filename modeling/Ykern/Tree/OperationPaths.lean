import Ykern.Tree.FsPaths
import Ykern.Tree.Resolve

/-!
# The two paths of an operation

An operation that the overlay gives a name was found by its number before, as `cmd-1` under
its family. Resolving compares segments with the names of nodes, and the name of the
operation is the one that the overlay gives it. So the path with the number never leads to
it, and the two paths never to one operation (`operationPaths_differ`).
-/

set_option autoImplicit false

namespace Ykern.Tree

open Overlay Genl

/-! ## What is followed -/

namespace Heap

variable {ν : Type} {h h' : Heap ν} {names : ν → Except Error CStr} {parent start c n : Addr}
  {want : CStr} {segs : List CStr}

theorem childNamed_eq_some (first : h.childNamed names parent want = some c) :
    c ∈ h.listed parent ∧ h.nameOf names c = some want :=
  ⟨List.mem_of_find?_eq_some first, by simpa using List.find?_some first⟩

/-- What has children was enumerated. -/
theorem enumerated_of_listed (member : c ∈ h.listed parent) : h.Enumerated parent := by
  rw [listed] at member
  split at member
  · next o cell =>
      split at member
      · next populated => exact ⟨o, cell, populated⟩
      · cases member
  · cases member

/-- The last segment is the name of a child. -/
theorem last_followed (followed : (segs ++ [want]).foldlM (h.childNamed names) start = some n) :
    ∃ p, segs.foldlM (h.childNamed names) start = some p ∧ h.childNamed names p want = some n := by
  rw [List.foldlM_append, Option.bind_eq_bind, Option.bind_eq_some_iff] at followed
  obtain ⟨p, reached, last⟩ := followed
  exact ⟨p, reached, (Option.bind_fun_some _).symm.trans last⟩

end Heap

namespace Owned

open Heap

variable {ν : Type} {h h' : Heap ν} {root start n : Addr} {pending all : List Addr}
  {names : ν → Except Error CStr} {segs : List CStr}

/-- No object is its own child. -/
theorem notMem_listed (owned : Owned h root pending all) : n ∉ h.listed n := by
  intro member
  obtain ⟨o, cell, populated⟩ := enumerated_of_listed member
  rw [Enumerated.listed cell populated] at member
  obtain ⟨below, rest, held, -, notBelow, -⟩ := owned.account.focus cell
  exact notBelow (held.sublist.subset member)

/-- What was followed is followed when the tree is kept. -/
theorem followed_keeps (owned : Owned h root pending all) (keeps : h.Keeps h')
    (followed : segs.foldlM (h.childNamed names) start = some n) :
    segs.foldlM (h'.childNamed names) start = some n := by
  induction segs generalizing start with
  | nil => exact followed
  | cons seg segs ih =>
      rw [List.foldlM_cons, Option.bind_eq_bind, Option.bind_eq_some_iff] at followed ⊢
      obtain ⟨next, first, rest⟩ := followed
      have enumerated := enumerated_of_listed (childNamed_eq_some first).1
      exact ⟨next, (owned.childNamed_keeps keeps enumerated names seg).trans first, ih rest⟩

end Owned

/-- What is resolved was followed. -/
theorem Heap.Resolves.followed {ν : Type} {h : Heap ν} {names : ν → Except Error CStr}
    {populate : Addr → Populate ν} {start n : Addr} {segs : List CStr} {r : Resolved}
    (resolves : h.Resolves names populate start segs r) (found : r.object = some n) :
    segs.foldlM (h.childNamed names) start = some n := by
  rcases resolves.outcome with ⟨m, reached, rfl⟩ | ⟨front, missing, rest, m, split, -, -, rfl⟩
  · rwa [← Option.some.inj found]
  · cases found

/-! ## The names of operations -/

/-- The path of an operation with this name. -/
def operationPath (family name : CStr) : CStr := lit "/netlink/genl/" ++ family ++ lit "/" ++ name

/-- The name of an operation that has none in the overlay. -/
def cmdName (cmdId : UInt32) : CStr := lit "cmd-" ++ decimal cmdId.toNat

theorem segments_operationPath (family name : CStr) :
    pathSegments (some (operationPath family name)) =
      segments slash (lit "/netlink/genl/" ++ family) ++ segments slash name := by
  have shape : operationPath family name = (lit "/netlink/genl/" ++ family) ++ slash :: name := by
    rw [operationPath, List.append_assoc _ (lit "/") name]
    rfl
  rw [pathSegments, Option.getD_some, shape, segments_append]

theorem segments_cmdName (cmdId : UInt32) : segments slash (cmdName cmdId) = [cmdName cmdId] := by
  refine segments_eq_singleton ?_ ?_
  · exact List.append_ne_nil_of_left_ne_nil (by decide) _
  · intro member
    rcases List.mem_append.mp member with front | digit
    · exact absurd front (by decide)
    · exact absurd (digit_of_mem_decimal digit).1 (by decide)

theorem cmdName_injective {k k' : UInt32} (same : cmdName k = cmdName k') : k = k' :=
  UInt32.toNat_inj.mp (decimal_injective (List.append_cancel_left same))

/-- An operation has the name that the overlay gives it, or that of its number. -/
theorem opGetName_cases (op : Operation) :
    (op.overlayName = some (opGetName op) ∧ opGetName op ≠ []) ∨
      (op.overlayName = none ∨ op.overlayName = some []) ∧ opGetName op = cmdName op.cmdId := by
  cases given : op.overlayName with
  | none => exact .inr ⟨.inl rfl, by rw [opGetName, given]; rfl⟩
  | some text =>
      by_cases empty : text = []
      · subst empty
        exact .inr ⟨.inr rfl, by rw [opGetName, given]; rfl⟩
      · have shown : opGetName op = text := by
          rw [opGetName, given]
          exact if_neg empty
        exact .inl ⟨by rw [shown], by rwa [shown]⟩

/-- The name of a node, when its getter is called on the object. -/
theorem Heap.nameOf_node {h : Heap Node} {a : Addr} {v : Node} (value : h.valueAt a = some v) :
    h.nameOf nodeNames a = some v.getName := by
  obtain ⟨o, cell, impl⟩ := cell_of_valueAt value
  have named : h.getName nodeNames a = some (.ok v.getName) := by
    rw [getName, cell, Option.bind_eq_bind, Option.bind_some, impl]
    rfl
  rw [nameOf, named]

/-! ## The two paths -/

/-- **The path with the name and the path with the number do not lead to one operation** of a
family, whose operations have different numbers and no overlay name that is that of a
number. -/
theorem operationPaths_differ {transports : List Node} {calls : List (Call Node)}
    {h h₁ h₂ : Heap Node}
    (ran : Heap.run calls (Heap.rootCreate transports).2 = some h)
    {family name : CStr} {populate populate' : Addr → Populate Node} {r₁ r₂ : Heap.Resolved}
    {overlay : Option FamilyOverlay} {info : OpInfo} {row : OpOverlay CStr}
    (byName : h.resolvePath nodeNames populate true true (Heap.rootCreate transports).1
      (some (operationPath family name)) = some (h₁, r₁))
    (byNumber : h₁.resolvePath nodeNames populate' true true (Heap.rootCreate transports).1
      (some (operationPath family (cmdName info.id))) = some (h₂, r₂))
    {p a : Addr} (member : a ∈ h₂.listed p)
    (isOp : h₂.valueAt a = some (.operation (operationNode overlay info)))
    (isRow : findOp overlay info.id = some row) (named : row.name = some name)
    (numbers : ∀ b ∈ h₂.listed p, ∀ c ∈ h₂.listed p, ∀ op op',
      h₂.valueAt b = some (.operation op) → h₂.valueAt c = some (.operation op') →
        op.cmdId = op'.cmdId → b = c)
    (plain : ∀ b ∈ h₂.listed p, ∀ op, h₂.valueAt b = some (.operation op) →
      ∀ n : Nat, op.overlayName ≠ some (lit "cmd-" ++ decimal n)) :
    ¬∃ b ∈ h₂.listed p, ∃ op, h₂.valueAt b = some (.operation op) ∧
      r₁.object = some b ∧ r₂.object = some b := by
  rintro ⟨b, memberB, op, isOpB, found₁, found₂⟩
  obtain ⟨pending, created⟩ := rootCreate_owned transports
  obtain ⟨h₀, pending₀, all₀, ran', owned⟩ := created.run calls
  obtain rfl := Option.some.inj (ran'.symm.trans ran)
  obtain ⟨h₁', r₁', pending₁, all₁, eq₁, owned₁, resolves₁, -⟩ :=
    owned.resolvePath nodeNames populate (some (operationPath family name))
  obtain ⟨rfl, rfl⟩ := Prod.mk.inj (Option.some.inj (byName.symm.trans eq₁))
  obtain ⟨h₂', r₂', pending₂, all₂, eq₂, owned₂, resolves₂, keeps⟩ :=
    owned₁.resolvePath nodeNames populate' (some (operationPath family (cmdName info.id)))
  obtain ⟨rfl, rfl⟩ := Prod.mk.inj (Option.some.inj (byNumber.symm.trans eq₂))
  rw [segments_operationPath] at resolves₁ resolves₂
  rw [segments_cmdName] at resolves₂
  generalize segments slash (lit "/netlink/genl/" ++ family) = front at resolves₁ resolves₂
  -- The second path leads to a child with the name of the number.
  obtain ⟨q, reached, last⟩ := Heap.last_followed (resolves₂.followed found₂)
  obtain ⟨below, nameB⟩ := Heap.childNamed_eq_some last
  have shown : opGetName op = cmdName info.id :=
    Option.some.inj ((Heap.nameOf_node isOpB).symm.trans nameB)
  rcases opGetName_cases op with ⟨given, -⟩ | ⟨missing, number⟩
  · exact plain b memberB op isOpB info.id.toNat (given.trans (congrArg some shown))
  -- So it is the operation itself, which the overlay gives the empty name.
  have same : b = a := numbers b memberB a member op _ isOpB isOp
    (cmdName_injective (number.symm.trans shown))
  subst same
  have isNode : op = operationNode overlay info :=
    Node.operation.inj (Option.some.inj (isOpB.symm.trans isOp))
  have given : op.overlayName = some name := by
    rw [isNode]
    show (findOp overlay info.id).bind (·.name) = some name
    rw [isRow, Option.bind_some, named]
  obtain rfl : name = [] := by
    rcases missing with none | empty
    · rw [given] at none
      cases none
    · exact Option.some.inj (given.symm.trans empty)
  -- The first path then ends at the family, which is not among its own children.
  rw [segments_nil, List.append_nil] at resolves₁
  have followed₁ := resolves₁.followed found₁
  cases front with
  | nil =>
      obtain rfl := Option.some.inj followed₁
      obtain ⟨r, cellR, implR⟩ := owned₂.listed
      rw [Heap.valueAt_root cellR implR] at isOp
      cases isOp
  | cons seg front =>
      have entered : h₁.Enumerated (Heap.rootCreate transports).1 := by
        rw [List.foldlM_cons, Option.bind_eq_bind, Option.bind_eq_some_iff] at followed₁
        obtain ⟨next, first, -⟩ := followed₁
        exact Heap.enumerated_of_listed (Heap.childNamed_eq_some first).1
      have again := owned₁.followed_keeps (keeps entered) followed₁
      obtain rfl := Option.some.inj (again.symm.trans reached)
      exact owned₂.notMem_listed below

/-- The ethtool family with one operation, which the overlay names. -/
def strsetFamily : Family :=
  ⟨lit "ethtool", 21, 1, 0, 0, [⟨1, 0x0e⟩], [], some { FamilyOverlay.zero with
    ops := ⟨[⟨1, some (lit "STRSET_GET"), none, none⟩], 16⟩ }⟩

/-- The callbacks of the nodes down to the operation. -/
def strsetPopulate (a : Addr) : Populate Node :=
  match a with
  | 0 => ⟨ynlSpawns, .ok (), fun _ => true⟩
  | 2 => ⟨[familySpawn strsetFamily], .ok (), fun _ => true⟩
  | 4 => ⟨(famPopulateChildren strsetFamily).map childSpawn, .ok (), fun _ => true⟩
  | _ => ⟨[], .ok (), fun _ => true⟩

/-- The operation is found by its name, and not by its number. -/
theorem strsetGet_missing :
    let created := (Heap.rootCreate [Node.netlink]).2
    ∃ h₁ h₂,
      created.resolvePath nodeNames strsetPopulate true true 1
          (some (operationPath (lit "ethtool") (lit "STRSET_GET"))) = some (h₁, ⟨some 5, 5, none⟩) ∧
        h₁.valueAt 4 = some (.family strsetFamily) ∧ h₁.listed 4 = [5] ∧
        h₁.valueAt 5 = some (.operation (operationNode strsetFamily.overlay ⟨1, 0x0e⟩)) ∧
        h₁.resolvePath nodeNames strsetPopulate true true 1
          (some (operationPath (lit "ethtool") (cmdName 1))) =
            some (h₂, ⟨none, 4, some (lit "cmd-1")⟩) :=
  ⟨_, _, rfl, rfl, rfl, rfl, rfl⟩

/-- The two paths of this operation. -/
theorem strsetGet_differ :
    let created := (Heap.rootCreate [Node.netlink]).2
    ∃ h₁ r₁ h₂ r₂,
      created.resolvePath nodeNames strsetPopulate true true 1
          (some (operationPath (lit "ethtool") (lit "STRSET_GET"))) = some (h₁, r₁) ∧
        h₁.resolvePath nodeNames strsetPopulate true true 1
          (some (operationPath (lit "ethtool") (cmdName 1))) = some (h₂, r₂) ∧
        ¬∃ b ∈ h₂.listed 4, ∃ op, h₂.valueAt b = some (.operation op) ∧
          r₁.object = some b ∧ r₂.object = some b := by
  intro created
  obtain ⟨h₁, r₁, h₂, r₂, byName, byNumber, listed, isOp⟩ : ∃ h₁ r₁ h₂ r₂,
      created.resolvePath nodeNames strsetPopulate true true 1
          (some (operationPath (lit "ethtool") (lit "STRSET_GET"))) = some (h₁, r₁) ∧
        h₁.resolvePath nodeNames strsetPopulate true true 1
          (some (operationPath (lit "ethtool") (cmdName 1))) = some (h₂, r₂) ∧
        h₂.listed 4 = [5] ∧
        h₂.valueAt 5 = some (.operation (operationNode strsetFamily.overlay ⟨1, 0x0e⟩)) :=
    ⟨_, _, _, _, rfl, rfl, rfl, rfl⟩
  have only {b : Addr} (member : b ∈ h₂.listed 4) : b = 5 := by
    rwa [listed, List.mem_singleton] at member
  refine ⟨h₁, r₁, h₂, r₂, byName, byNumber, ?_⟩
  have member : 5 ∈ h₂.listed 4 := by
    rw [listed]
    exact List.mem_cons_self
  refine @operationPaths_differ [.netlink] [] created h₁ h₂ rfl (lit "ethtool") (lit "STRSET_GET")
    strsetPopulate strsetPopulate r₁ r₂ strsetFamily.overlay ⟨1, 0x0e⟩ _ byName byNumber 4 5 member
    isOp rfl rfl ?_ ?_
  · intro b memberB c memberC op op' _ _ _
    rw [only memberB, only memberC]
  · intro b memberB op isOpB n synthetic
    obtain rfl := only memberB
    have isNode := Node.operation.inj (Option.some.inj (isOpB.symm.trans isOp))
    rw [isNode] at synthetic
    have front := congrArg (List.take 1) (Option.some.inj synthetic)
    cases front

end Ykern.Tree
