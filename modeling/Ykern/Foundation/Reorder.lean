import Ykern.Foundation.Keyed

/-!
# The same items in another order

Two lists may hold the same items, each up to a relation, in different orders (`PermWith`).
Reading each item, where reading may fail, keeps this (`PermWith.mapM`), and so does
collecting what each item holds (`PermWith.flatMap`). A search for a key that is had once
finds related items (`PermWith.find?_key`), and assignments to different keys may be made in
any order (`foldl_perm_of_keys`).
-/

set_option autoImplicit false

namespace Ykern

section Reorder

variable {α β γ δ κ σ : Type} {R : α → β → Prop} {S : γ → δ → Prop}

/-- The items of the one list are those of the other, up to a relation, in some order. -/
def PermWith (R : α → β → Prop) (l : List α) (l' : List β) : Prop :=
  ∃ mid, List.Forall₂ R l mid ∧ mid.Perm l'

namespace PermWith

variable {l l₁ : List α} {l' l₁' : List β}

theorem of_forall₂ (same : List.Forall₂ R l l') : PermWith R l l' := ⟨l', same, .refl l'⟩

theorem refl {R : α → α → Prop} (related : ∀ a, R a a) (l : List α) : PermWith R l l :=
  of_forall₂ (List.forall₂_same.mpr fun a _ => related a)

/-- Where the items are the same this is a permutation. -/
theorem perm {l l' : List α} (same : PermWith Eq l l') : l.Perm l' := by
  obtain ⟨mid, equal, perm⟩ := same
  rw [List.forall₂_eq_eq_eq] at equal
  rwa [equal]

theorem length_eq (same : PermWith R l l') : l.length = l'.length := by
  obtain ⟨mid, related, perm⟩ := same
  rw [related.length_eq, perm.length_eq]

theorem trans_perm (same : PermWith R l l') (perm : l'.Perm l₁') : PermWith R l l₁' := by
  obtain ⟨mid, related, perm'⟩ := same
  exact ⟨mid, related, perm'.trans perm⟩

theorem append (first : PermWith R l l') (second : PermWith R l₁ l₁') :
    PermWith R (l ++ l₁) (l' ++ l₁') := by
  obtain ⟨mid, related, perm⟩ := first
  obtain ⟨mid₁, related₁, perm₁⟩ := second
  exact ⟨mid ++ mid₁, List.rel_append related related₁, perm.append perm₁⟩

/-- What related items have in common is a permutation. -/
theorem map_perm {f : α → γ} {g : β → γ} (same : ∀ a ∈ l, ∀ b, R a b → f a = g b)
    (related : PermWith R l l') : (l.map f).Perm (l'.map g) := by
  obtain ⟨mid, related, perm⟩ := related
  have equal : l.map f = mid.map g := by
    clear perm
    induction related with
    | nil => rfl
    | @cons a b l mid head _ ih =>
        rw [List.map_cons, List.map_cons, same a List.mem_cons_self b head,
          ih fun a member => same a (List.mem_cons_of_mem _ member)]
  rw [equal]
  exact perm.map g

/-- What the items hold is the same in another order. -/
theorem flatMap {f : α → List γ} {g : β → List δ}
    (items : ∀ a b, R a b → PermWith S (f a) (g b)) (related : PermWith R l l') :
    PermWith S (l.flatMap f) (l'.flatMap g) := by
  obtain ⟨mid, related, perm⟩ := related
  refine trans_perm ?_ (perm.flatMap_right g)
  clear perm
  induction related with
  | nil => exact of_forall₂ .nil
  | @cons a b l mid head _ ih =>
      rw [List.flatMap_cons, List.flatMap_cons]
      exact (items a b head).append ih

end PermWith

/-! ## Reading the items -/

theorem mapM_forall₂ {f : α → Option γ} {g : β → Option δ} {l : List α} {l' : List β}
    (items : ∀ a b, R a b → Option.Rel S (f a) (g b)) (related : List.Forall₂ R l l') :
    Option.Rel (List.Forall₂ S) (l.mapM f) (l'.mapM g) := by
  induction related with
  | nil => exact .some .nil
  | @cons a b l l' head _ ih =>
      have item := items a b head
      rw [List.mapM_cons, List.mapM_cons]
      generalize f a = read, g b = read' at item
      generalize l.mapM f = others, l'.mapM g = others' at ih
      cases item with
      | none => exact .none
      | some first =>
          cases ih with
          | none => exact .none
          | some rest => exact .some (.cons first rest)

theorem mapM_perm {f : α → Option γ} {l l' : List α} (perm : l.Perm l') :
    Option.Rel List.Perm (l.mapM f) (l'.mapM f) := by
  induction perm with
  | nil => exact .some .nil
  | @cons a l l' _ ih =>
      rw [List.mapM_cons, List.mapM_cons]
      generalize l.mapM f = others, l'.mapM f = others' at ih
      cases f a with
      | none => exact .none
      | some c =>
          cases ih with
          | none => exact .none
          | some rest => exact .some (rest.cons c)
  | swap a b l =>
      rw [List.mapM_cons, List.mapM_cons, List.mapM_cons, List.mapM_cons]
      cases f a with
      | none =>
          cases f b with
          | none => exact .none
          | some d => exact .none
      | some c =>
          cases f b with
          | none => exact .none
          | some d =>
              cases l.mapM f with
              | none => exact .none
              | some rest => exact .some (.swap c d rest)
  | @trans l₁ l₂ l₃ _ _ first second =>
      generalize l₁.mapM f = read₁, l₂.mapM f = read₂, l₃.mapM f = read₃ at first second
      cases first with
      | none =>
          cases second
          exact .none
      | some perm =>
          cases second with
          | some perm' => exact .some (perm.trans perm')

/-- **Reading the items keeps them related**, and fails for both or for neither. -/
theorem PermWith.mapM {f : α → Option γ} {g : β → Option δ} {l : List α} {l' : List β}
    (items : ∀ a b, R a b → Option.Rel S (f a) (g b)) (related : PermWith R l l') :
    Option.Rel (PermWith S) (l.mapM f) (l'.mapM g) := by
  obtain ⟨mid, related, perm⟩ := related
  have first := mapM_forall₂ items related
  have second := mapM_perm (f := g) perm
  generalize l.mapM f = read at first
  generalize mid.mapM g = readMid at first second
  generalize l'.mapM g = read' at second
  cases first with
  | none =>
      cases second
      exact .none
  | some same =>
      cases second with
      | some perm => exact .some ⟨_, same, perm⟩

/-! ## Searching -/

variable [BEq κ] [LawfulBEq κ]

/-- **A search for a key finds related items** where keys are had once. -/
theorem PermWith.find?_key (key : α → κ) (key' : β → κ) {l : List α} {l' : List β}
    (sameKey : ∀ a b, R a b → key a = key' b) (distinct : (l.map key).Nodup)
    (related : PermWith R l l') (k : κ) :
    Option.Rel R (l.find? fun a => key a == k) (l'.find? fun b => key' b == k) := by
  obtain ⟨mid, related, perm⟩ := related
  have keys : l.map key = mid.map key' := by
    rw [← List.forall₂_eq_eq_eq, List.forall₂_map_left_iff, List.forall₂_map_right_iff]
    exact related.imp sameKey
  have searched : mid.find? (fun b => key' b == k) = l'.find? fun b => key' b == k :=
    find?_key_congr (uniqueAt_of_nodup (keys ▸ distinct) k) fun b _ => perm.mem_iff
  rw [← searched]
  clear searched perm keys distinct
  induction related with
  | nil => exact .none
  | @cons a b l mid head _ ih =>
      rw [List.find?_cons, List.find?_cons, sameKey a b head]
      cases key' b == k with
      | true => exact .some head
      | false => exact ih

/-! ## Assignments -/

omit [BEq κ] [LawfulBEq κ] in
/-- **Assignments to different keys may be made in any order.** -/
theorem foldl_perm_of_keys {step : σ → α → σ} {key : α → κ} {l l' : List α}
    (commute : ∀ a b, key a ≠ key b → ∀ s, step (step s a) b = step (step s b) a)
    (distinct : (l.map key).Nodup) (perm : l.Perm l') (s : σ) :
    l.foldl step s = l'.foldl step s := by
  refine perm.foldl_eq' ?_ s
  intro a memberA b memberB s
  by_cases same : a = b
  · rw [same]
  · refine commute a b ?_ s
    intro sameKey
    exact same (List.inj_on_of_nodup_map distinct memberA memberB sameKey)

end Reorder

end Ykern
