import Ykern.Foundation.Forest

/-!
# Visits in preorder

A recursion that handles a node and then its children, each with all that is below it before
the next, visits a forest in preorder (`Visits`). The depth of a node is listed with it.

What is visited is what can be reached from the nodes at the start (`Visits.mem_iff`). In a
forest whose nodes are held in one place no node is visited twice (`Visits.nodup`), and what is
below two siblings has nothing in common (`siblings_apart`).
-/

set_option autoImplicit false

namespace Ykern.Forest

variable {α : Type}

/-- The nodes at this depth and those below them, in the order in which they are visited. -/
inductive Visits (kids : α → List α) : Nat → List α → List (Nat × α) → Prop where
  | nil (depth : Nat) : Visits kids depth [] []
  | cons {depth : Nat} {a : α} {rest : List α} {below others : List (Nat × α)}
      (inside : Visits kids (depth + 1) (kids a) below) (beside : Visits kids depth rest others) :
      Visits kids depth (a :: rest) ((depth, a) :: (below ++ others))

namespace Visits

variable {kids kids' : α → List α} {depth : Nat} {as : List α} {items : List (Nat × α)}

/-- A node without children. -/
theorem leaf {a : α} (none : kids a = []) (depth : Nat) : Visits kids depth [a] [(depth, a)] :=
  @Visits.cons α kids depth a [] [] [] (none ▸ .nil _) (.nil _)

/-- Only the children of what is visited matter. -/
theorem congr (visits : Visits kids depth as items)
    (same : ∀ a ∈ items.map Prod.snd, kids' a = kids a) : Visits kids' depth as items := by
  induction visits with
  | nil depth => exact .nil depth
  | @cons depth a rest below others inside beside ihInside ihBeside =>
      rw [List.map_cons, List.map_append] at same
      refine .cons ?_ (ihBeside fun b member => same b ?_)
      · rw [same a List.mem_cons_self]
        exact ihInside fun b member =>
          same b (List.mem_cons_of_mem _ (List.mem_append_left _ member))
      · exact List.mem_cons_of_mem _ (List.mem_append_right _ member)

/-- **What is visited** is what can be reached from the start. -/
theorem mem_iff (visits : Visits kids depth as items) {b : α} :
    b ∈ items.map Prod.snd ↔ ∃ a ∈ as, Relation.ReflTransGen (fun p c => c ∈ kids p) a b := by
  induction visits with
  | nil => simp
  | @cons depth a rest below others _ _ ihInside ihBeside =>
      rw [List.map_cons, List.map_append, List.mem_cons, List.mem_append, ihInside, ihBeside]
      constructor
      · rintro (rfl | ⟨c, child, down⟩ | ⟨c, member, down⟩)
        · exact ⟨b, List.mem_cons_self, .refl⟩
        · exact ⟨a, List.mem_cons_self, .head child down⟩
        · exact ⟨c, List.mem_cons_of_mem _ member, down⟩
      · rintro ⟨c, member, down⟩
        rcases List.mem_cons.mp member with rfl | member
        · rcases Relation.ReflTransGen.cases_head down with rfl | ⟨d, child, down⟩
          · exact .inl rfl
          · exact .inr (.inl ⟨d, child, down⟩)
        · exact .inr (.inr ⟨c, member, down⟩)

/-- What is visited in a forest is among the nodes that it holds, each as often at most. -/
theorem subperm {links : Links α} {parent : Option α} {all : List α}
    (held : Held links parent as all)
    (part : ∀ a p cs, links a = some (p, cs) → kids a = cs ∨ kids a = [])
    (visits : Visits kids depth as items) : (items.map Prod.snd).Subperm all := by
  induction held generalizing depth items with
  | nil =>
      cases visits
      exact .refl []
  | @cons parent a cs below rest others cell _ _ ihChildren ihSiblings =>
      cases visits with
      | @cons _ _ _ inner outer inside beside =>
          have further : (inner.map Prod.snd).Subperm below := by
            rcases part a parent cs cell with same | none
            · exact ihChildren (same ▸ inside)
            · rw [none] at inside
              cases inside
              exact (List.nil_sublist _).subperm
          rw [List.map_cons, List.map_append]
          obtain ⟨inner', permInner, within⟩ := further
          obtain ⟨outer', permOuter, among⟩ := ihSiblings beside
          refine ⟨inner' ++ a :: outer', ?_, within.append (among.cons_cons a)⟩
          exact List.perm_middle.trans ((permInner.append permOuter).cons a)

/-- **No node is visited twice** where every node is held in one place. -/
theorem nodup {links : Links α} {parent : Option α} {all : List α}
    (held : Held links parent as all) (distinct : all.Nodup)
    (part : ∀ a p cs, links a = some (p, cs) → kids a = cs ∨ kids a = [])
    (visits : Visits kids depth as items) : (items.map Prod.snd).Nodup := by
  obtain ⟨some, perm, sublist⟩ := visits.subperm held part
  exact perm.nodup_iff.mp (sublist.nodup distinct)

end Visits

/-- **What is below two siblings has nothing in common.** -/
theorem siblings_apart {links : Links α} {a b p x : α} (ends : Ends links p)
    (first : Parent links a p) (second : Parent links b p)
    (upA : Relation.ReflTransGen (Parent links) x a)
    (upB : Relation.ReflTransGen (Parent links) x b) : a = b := by
  have functional : Relator.RightUnique (Parent links) := by
    rintro c q r ⟨cs, cell⟩ ⟨cs', cell'⟩
    exact Option.some.inj (Prod.mk.inj (Option.some.inj (cell.symm.trans cell'))).1
  -- If one is above the other, so is it above the parent of the other, which is its own.
  have apart {c d : α} (parentC : Parent links c p) (parentD : Parent links d p)
      (up : Relation.ReflTransGen (Parent links) c d) : c = d := by
    rcases Relation.ReflTransGen.cases_head up with same | ⟨q, parent, further⟩
    · exact same
    · obtain rfl := functional parent parentC
      exact absurd (Relation.TransGen.tail' further parentD) ends.acyclic
  rcases Relation.ReflTransGen.total_of_right_unique functional upA upB with up | up
  · exact apart first second up
  · exact (apart second first up).symm

end Ykern.Forest
