import Mathlib

/-!
# Lists searched by a key

A table of rows that is searched for the first row with a key answers the row of the key
when no two rows share it (`find?_key_eq_some_iff`). What it answers then depends on which
rows there are, and not on their order (`find?_key_congr`).
-/

set_option autoImplicit false

namespace Ykern

section Keyed

variable {α κ : Type} {key : α → κ} {l l' : List α} {k : κ} {r : α}

/-- At most one row has the key. -/
def UniqueAt (key : α → κ) (l : List α) (k : κ) : Prop :=
  ∀ a ∈ l, ∀ b ∈ l, key a = k → key b = k → a = b

/-- Where all keys are distinct each is had once. -/
theorem uniqueAt_of_nodup (distinct : (l.map key).Nodup) (k : κ) : UniqueAt key l k := by
  intro a member b member' isKey isKey'
  exact List.inj_on_of_nodup_map distinct member member' (isKey.trans isKey'.symm)

/-- Where a key may be missing, and those that are not are distinct. -/
theorem uniqueAt_of_nodup_filterMap {key : α → Option κ} (distinct : (l.filterMap key).Nodup)
    (k : κ) : UniqueAt key l (some k) := by
  intro a member b member' isKey isKey'
  by_contra different
  have symmetric : Std.Symm fun a b : α =>
      ∀ k, key a = some k → ∀ k', key b = some k' → k ≠ k' :=
    ⟨fun a b apart k isKey k' isKey' => (apart k' isKey' k isKey).symm⟩
  have apart := (List.pairwise_filterMap.mp distinct).forall member member' different
  exact apart k isKey k isKey' rfl

variable [BEq κ] [LawfulBEq κ]

/-- **The search answers the row of the key.** -/
theorem find?_key_eq_some_iff (unique : UniqueAt key l k) :
    l.find? (fun x => key x == k) = some r ↔ r ∈ l ∧ key r = k := by
  constructor
  · intro found
    exact ⟨List.mem_of_find?_eq_some found, by simpa using List.find?_some found⟩
  · rintro ⟨member, isKey⟩
    obtain ⟨first, found⟩ : ∃ first, l.find? (fun x => key x == k) = some first :=
      Option.isSome_iff_exists.mp (List.find?_isSome.mpr ⟨r, member, beq_iff_eq.mpr isKey⟩)
    have isKey' : key first = k := by simpa using List.find?_some found
    rw [found, unique first (List.mem_of_find?_eq_some found) r member isKey' isKey]

/-- **The same rows in another order are searched alike.** -/
theorem find?_key_congr (unique : UniqueAt key l k)
    (same : ∀ a, key a = k → (a ∈ l ↔ a ∈ l')) :
    l.find? (fun x => key x == k) = l'.find? (fun x => key x == k) := by
  have unique' : UniqueAt key l' k := by
    intro a member b member' isKey isKey'
    exact unique a ((same a isKey).mpr member) b ((same b isKey').mpr member') isKey isKey'
  apply Option.ext
  intro r
  rw [find?_key_eq_some_iff unique, find?_key_eq_some_iff unique']
  exact and_congr_left fun isKey => same r isKey

end Keyed

end Ykern
