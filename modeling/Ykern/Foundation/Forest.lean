import Mathlib.Data.List.Nodup
import Mathlib.Data.List.Perm.Basic
import Mathlib.Logic.Relation

/-!
# Linked nodes

Nodes in memory are linked both ways: a node has a list of children and a pointer to its
parent. The links are those of a forest when siblings and the nodes below them can be
listed, each node after those below it, such that every node points to the node that lists
it as a child (`Held`).

What is listed without repetition is held in one place (`Held.parent_of_child`,
`Held.nodup_children`). The children of one node can be replaced, with what is below them,
and the rest of the forest stays (`Held.focus`). Chains of parents end, so they have no
cycle (`Ends.acyclic`).
-/

set_option autoImplicit false

namespace Ykern.Forest

variable {α : Type}

/-- What the nodes link to, for the addresses with a node: the parent, if any, and the
children. -/
abbrev Links (α : Type) := α → Option (Option α × List α)

/-- Siblings with this parent, and all nodes that are held by them, each after those below
it. -/
inductive Held (links : Links α) : Option α → List α → List α → Prop where
  | nil (parent : Option α) : Held links parent [] []
  | cons {parent : Option α} {a : α} {cs below rest others : List α}
      (cell : links a = some (parent, cs)) (children : Held links (some a) cs below)
      (siblings : Held links parent rest others) :
      Held links parent (a :: rest) (below ++ a :: others)

namespace Held

variable {links links' : Links α} {parent : Option α} {as all : List α}

/-- Only the nodes that are held matter. -/
theorem congr (held : Held links parent as all) (same : ∀ a ∈ all, links' a = links a) :
    Held links' parent as all := by
  induction held with
  | nil parent => exact .nil parent
  | @cons parent a cs below rest others cell children siblings ihChildren ihSiblings =>
      refine .cons ((same a (by simp)).trans cell) (ihChildren ?_) (ihSiblings ?_)
      · intro b member
        exact same b (List.mem_append_left _ member)
      · intro b member
        exact same b (List.mem_append_right _ (List.mem_cons_of_mem _ member))

/-- The first sibling and the others. -/
theorem uncons {a : α} {rest : List α} (held : Held links parent (a :: rest) all) :
    ∃ cs below others, links a = some (parent, cs) ∧ Held links (some a) cs below ∧
      Held links parent rest others ∧ all = below ++ a :: others := by
  cases held with
  | cons cell children siblings => exact ⟨_, _, _, cell, children, siblings, rfl⟩

/-- More siblings. -/
theorem append {bs more : List α} (held : Held links parent as all)
    (held' : Held links parent bs more) : Held links parent (as ++ bs) (all ++ more) := by
  induction held with
  | nil parent => exact held'
  | cons cell children _ _ ih =>
      rw [List.append_assoc]
      exact .cons cell children (ih held')

/-- A node without children. -/
theorem leaf {a : α} (cell : links a = some (parent, [])) : Held links parent [a] [a] :=
  .cons cell (.nil _) (.nil _)

/-- Nodes without children. -/
theorem leaves (cells : ∀ a ∈ as, links a = some (parent, [])) : Held links parent as as := by
  induction as with
  | nil => exact .nil parent
  | cons a as ih =>
      refine .cons (cells a List.mem_cons_self) (.nil _) (ih ?_)
      intro b member
      exact cells b (List.mem_cons_of_mem _ member)

/-- The siblings are among the nodes. -/
theorem sublist (held : Held links parent as all) : as.Sublist all := by
  induction held with
  | nil => exact .slnil
  | cons _ _ _ _ ih => exact (ih.cons_cons _).trans (List.sublist_append_right _ _)

/-- The siblings point to their parent. -/
theorem siblings_parent (held : Held links parent as all) :
    ∀ a ∈ as, ∃ cs, links a = some (parent, cs) := by
  induction held with
  | nil =>
      intro a member
      cases member
  | cons cell _ _ _ ih =>
      intro b member
      rcases List.mem_cons.mp member with rfl | member
      · exact ⟨_, cell⟩
      · exact ih b member

/-- What a node holds points to a parent. -/
theorem below_parent (held : Held links parent as all) (inside : parent.isSome = true) :
    ∀ a ∈ all, ∃ p cs, links a = some (some p, cs) := by
  induction held with
  | nil =>
      intro a member
      cases member
  | @cons parent a cs below rest others cell _ _ ihChildren ihSiblings =>
      intro b member
      rcases List.mem_append.mp member with member | member
      · exact ihChildren rfl b member
      rcases List.mem_cons.mp member with rfl | member
      · obtain ⟨p, rfl⟩ := Option.isSome_iff_exists.mp inside
        exact ⟨p, cs, cell⟩
      · exact ihSiblings inside b member

/-- **The forest around a node**: the children of the node can be replaced by others, with
all that is below them. -/
theorem focus (held : Held links parent as all) {a : α} (member : a ∈ all) :
    ∃ p cs below rest, links a = some (p, cs) ∧ Held links (some a) cs below ∧
      all.Perm (below ++ a :: rest) ∧
      ∀ {links' : Links α} {cs' below' : List α}, links' a = some (p, cs') →
        Held links' (some a) cs' below' → (∀ b ∈ rest, links' b = links b) →
          ∃ all', Held links' parent as all' ∧ all'.Perm (below' ++ a :: rest) := by
  induction held with
  | nil => cases member
  | @cons parent x cs below rest others cell children siblings ihChildren ihSiblings =>
      rcases List.mem_append.mp member with inside | member
      · obtain ⟨p, ds, below₁, rest₁, cellA, heldA, perm, replace⟩ := ihChildren inside
        refine ⟨p, ds, below₁, rest₁ ++ x :: others, cellA, heldA, ?_, ?_⟩
        · simpa using perm.append_right (x :: others)
        · intro links' cs' below' cell' held' same
          obtain ⟨all', rebuilt, perm'⟩ := replace cell' held' fun b member =>
            same b (List.mem_append_left _ member)
          have cellX := (same x (by simp)).trans cell
          refine ⟨all' ++ x :: others, .cons cellX rebuilt (siblings.congr ?_), ?_⟩
          · intro b member
            exact same b (by simp [member])
          · simpa using perm'.append_right (x :: others)
      rcases List.mem_cons.mp member with rfl | beside
      · refine ⟨parent, cs, below, others, cell, children, .refl _, ?_⟩
        intro links' cs' below' cell' held' same
        exact ⟨_, .cons cell' held' (siblings.congr same), .refl _⟩
      · obtain ⟨p, ds, below₁, rest₁, cellA, heldA, perm, replace⟩ := ihSiblings beside
        have shuffle {other : List α} : (below ++ x :: (other ++ a :: rest₁)).Perm
            (other ++ a :: (below ++ x :: rest₁)) := by
          have front : ((below ++ [x]) ++ other).Perm (other ++ (below ++ [x])) :=
            List.perm_append_comm
          have behind : ((below ++ [x]) ++ a :: rest₁).Perm (a :: ((below ++ [x]) ++ rest₁)) :=
            List.perm_middle
          refine List.Perm.trans ?_ ((behind.append_left other).trans ?_)
          · simpa using front.append_right (a :: rest₁)
          · simp
        refine ⟨p, ds, below₁, below ++ x :: rest₁, cellA, heldA, ?_, ?_⟩
        · exact ((perm.cons x).append_left below).trans shuffle
        · intro links' cs' below' cell' held' same
          obtain ⟨all', rebuilt, perm'⟩ := replace cell' held' fun b member =>
            same b (by simp [member])
          have cellX := (same x (by simp)).trans cell
          refine ⟨below ++ x :: all', .cons cellX (children.congr ?_) rebuilt, ?_⟩
          · intro b member
            exact same b (by simp [member])
          · exact ((perm'.cons x).append_left below).trans shuffle

/-- **A node takes its sibling as a child**, with all that is below it. -/
theorem adopt {a b : α} {rest cs ds : List α} (held : Held links parent (a :: b :: rest) all)
    (nodup : all.Nodup) (cellA : links a = some (parent, cs)) (cellB : links b = some (parent, ds))
    (cellA' : links' a = some (parent, cs ++ [b])) (cellB' : links' b = some (some a, ds))
    (same : ∀ c, c ≠ a → c ≠ b → links' c = links c) :
    ∃ all', Held links' parent (a :: rest) all' ∧ all'.Perm all := by
  obtain ⟨cs', belowA, siblings, cell, childrenA, heldB, rfl⟩ := held.uncons
  obtain ⟨-, rfl⟩ := Prod.mk.inj (Option.some.inj (cell.symm.trans cellA))
  obtain ⟨ds', belowB, others, cell', childrenB, heldRest, rfl⟩ := heldB.uncons
  obtain ⟨-, rfl⟩ := Prod.mk.inj (Option.some.inj (cell'.symm.trans cellB))
  have apart {c : α} (member : c ∈ belowA ∨ c ∈ belowB ∨ c ∈ others) : c ≠ a ∧ c ≠ b := by
    simp only [List.nodup_append, List.nodup_cons, List.mem_append, List.mem_cons] at nodup
    constructor
    · rintro rfl
      grind
    · rintro rfl
      grind
  have stays {c : α} (member : c ∈ belowA ∨ c ∈ belowB ∨ c ∈ others) : links' c = links c :=
    same c (apart member).1 (apart member).2
  have taken : Held links' (some a) [b] (belowB ++ [b]) :=
    .cons cellB' (childrenB.congr fun c member => stays (.inr (.inl member))) (.nil _)
  have children : Held links' (some a) (cs' ++ [b]) (belowA ++ (belowB ++ [b])) :=
    (childrenA.congr fun c member => stays (.inl member)).append taken
  refine ⟨_, .cons cellA' children (heldRest.congr fun c member => stays (.inr (.inr member))), ?_⟩
  -- The node is listed before the others, and its sibling was listed among them.
  have moved : (belowA ++ ((belowB ++ [b]) ++ a :: others)).Perm
      (belowA ++ a :: ((belowB ++ [b]) ++ others)) :=
    List.Perm.append_left belowA List.perm_middle
  simpa using moved

/-- What a node has as a child is held, and points to the node. -/
theorem parent_of_child (held : Held links parent as all) {a c : α} {p : Option α} {cs : List α}
    (member : a ∈ all) (cell : links a = some (p, cs)) (child : c ∈ cs) :
    c ∈ all ∧ ∃ ds, links c = some (some a, ds) := by
  obtain ⟨p', cs', below, rest, cell', heldA, perm, -⟩ := held.focus member
  obtain ⟨rfl, rfl⟩ := Prod.mk.inj (Option.some.inj (cell.symm.trans cell'))
  exact ⟨perm.mem_iff.mpr (List.mem_append_left _ (heldA.sublist.subset child)),
    heldA.siblings_parent c child⟩

/-- A node has a child once. -/
theorem nodup_children (held : Held links parent as all) (nodup : all.Nodup) {a : α}
    {p : Option α} {cs : List α} (member : a ∈ all) (cell : links a = some (p, cs)) : cs.Nodup := by
  obtain ⟨p', cs', below, rest, cell', heldA, perm, -⟩ := held.focus member
  obtain ⟨rfl, rfl⟩ := Prod.mk.inj (Option.some.inj (cell.symm.trans cell'))
  exact heldA.sublist.nodup (List.nodup_append.mp (perm.nodup_iff.mp nodup)).1

/-- What is held is one of the siblings or a child of what is held. -/
theorem sibling_or_child (held : Held links parent as all) :
    ∀ a ∈ all, a ∈ as ∨ ∃ b ∈ all, ∃ p cs, links b = some (p, cs) ∧ a ∈ cs := by
  induction held with
  | nil =>
      intro a member
      cases member
  | @cons parent x cs below rest others cell children siblings ihChildren ihSiblings =>
      intro a member
      rcases List.mem_append.mp member with inside | member
      · refine .inr ?_
        rcases ihChildren a inside with child | ⟨b, memberB, p, ds, cellB, child⟩
        · exact ⟨x, by simp, parent, cs, cell, child⟩
        · exact ⟨b, by simp [memberB], p, ds, cellB, child⟩
      rcases List.mem_cons.mp member with rfl | beside
      · exact .inl (by simp)
      rcases ihSiblings a beside with sibling | ⟨b, memberB, p, ds, cellB, child⟩
      · exact .inl (List.mem_cons_of_mem _ sibling)
      · exact .inr ⟨b, by simp [memberB], p, ds, cellB, child⟩

end Held

/-! ## Chains of parents -/

/-- The parent of a node. -/
def Parent (links : Links α) (a p : α) : Prop := ∃ cs, links a = some (some p, cs)

/-- The chain of parents comes to an end. -/
inductive Ends (links : Links α) : α → Prop where
  | top {a : α} {cs : List α} (cell : links a = some (none, cs)) : Ends links a
  | up {a p : α} (parent : Parent links a p) (ends : Ends links p) : Ends links a

variable {links : Links α}

/-- **A chain of parents that ends has no cycle.** -/
theorem Ends.acyclic {a : α} (ends : Ends links a) :
    ¬Relation.TransGen (Parent links) a a := by
  induction ends with
  | top cell =>
      intro cycle
      obtain ⟨p, ⟨cs, first⟩, -⟩ := Relation.TransGen.head'_iff.mp cycle
      cases (Prod.mk.inj (Option.some.inj (cell.symm.trans first))).1
  | @up a p parent _ ih =>
      intro cycle
      obtain ⟨p', first, back⟩ := Relation.TransGen.head'_iff.mp cycle
      have same : p' = p := by
        obtain ⟨cs, cell⟩ := parent
        obtain ⟨cs', cell'⟩ := first
        exact Option.some.inj (Prod.mk.inj (Option.some.inj (cell'.symm.trans cell))).1
      subst same
      exact ih (Relation.TransGen.tail' back first)

/-- The chains of what is held end if those of the siblings do. -/
theorem Held.ends {parent : Option α} {as all : List α} (held : Held links parent as all)
    (top : ∀ p, parent = some p → Ends links p) : ∀ a ∈ all, Ends links a := by
  induction held with
  | nil =>
      intro a member
      cases member
  | @cons parent x cs below rest others cell children siblings ihChildren ihSiblings =>
      have endsX : Ends links x := by
        cases parent with
        | none => exact .top cell
        | some p => exact .up ⟨cs, cell⟩ (top p rfl)
      intro a member
      rcases List.mem_append.mp member with inside | member
      · refine ihChildren ?_ a inside
        intro p same
        obtain rfl := Option.some.inj same
        exact endsX
      rcases List.mem_cons.mp member with rfl | beside
      · exact endsX
      · exact ihSiblings top a beside

end Ykern.Forest
