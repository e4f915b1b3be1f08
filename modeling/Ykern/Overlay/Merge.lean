import Ykern.Foundation.Ownership
import Ykern.Overlay.Records

/-!
# Merging curated rows into generated rows

After both files of a family are loaded, the array of operations holds rows keyed
by an id and rows keyed by a name, which carry the descriptions. The merge walks
the array once. It compacts the rows keyed by an id to the front in place, and
for each row keyed by a name it moves the descriptions to the first row with an id
and that name, wherever it is, and frees the rest.

While it walks, the slots between the compacted rows and the current one hold
stale copies: a row that was moved, or a row keyed by a name whose strings are
freed. The search for a name scans these slots too. It never stops at one: a
moved row has its live copy at a lower index, and a row keyed by a name is skipped
before its name is read (`Layout`). What remains of the walk is a fold over the
rows keyed by a name (`mergeCuratedIntoGenerated_merged`). With distinct names the
rows may come in any order (`merged_perm`).
-/

set_option autoImplicit false

namespace Ykern.Overlay

variable {H : Type}

/-- A row that is keyed by an id. -/
def OpOverlay.IdKeyed (row : OpOverlay H) : Prop := row.cmdId ≠ 0

instance (row : OpOverlay H) : Decidable row.IdKeyed := inferInstanceAs (Decidable (_ ≠ _))

/-- The strings a row owns. -/
def OpOverlay.strings (row : OpOverlay H) : List H :=
  row.name.toList ++ row.shortDesc.toList ++ row.longDesc.toList

/-! ## The merge of the source -/

section Source

variable (text : H → CStr)

/-- Free an allocation that may be `NULL`. -/
def free : Option H → Traced (OwnerEvent H) Unit
  | none => pure ()
  | some h => .emit (.free h)

/-- The inner loop of `merge_curated_into_generated`, from slot `j` on: the slot of
the first generated entry with the name of the current row. -/
def findGenerated (cur : OpOverlay H) (i : Nat) (j : Nat) :
    List (OpOverlay H) → Traced (OwnerEvent H) (Option (Nat × OpOverlay H))
  | [] => pure none
  | row :: rest =>
      if j = i then findGenerated cur i (j + 1) rest
      else if row.cmdId ≠ 0 then
        match row.name, cur.name with
        | some n, some m => do
            .emit (.read n)
            .emit (.read m)
            if text n = text m then pure (some (j, row)) else findGenerated cur i (j + 1) rest
        | _, _ => findGenerated cur i (j + 1) rest
      else findGenerated cur i (j + 1) rest

/-- The array while it is merged, and the number of rows kept. -/
structure Merging (H : Type) where
  rows : List (OpOverlay H)
  kept : Nat

/-- The body of the outer loop, for the row in slot `i`. -/
def mergeRow (i : Nat) (s : Merging H) : Traced (OwnerEvent H) (Merging H) :=
  match s.rows[i]? with
  | none => pure s
  | some cur =>
      if cur.cmdId ≠ 0 then
        pure { rows := if s.kept ≠ i then s.rows.set s.kept cur else s.rows, kept := s.kept + 1 }
      else do
        match ← findGenerated text cur i 0 s.rows with
        | some (j, row) =>
            free row.shortDesc
            free row.longDesc
            let described := { row with shortDesc := cur.shortDesc, longDesc := cur.longDesc }
            let cur := { cur with shortDesc := none, longDesc := none }
            free cur.name
            free cur.shortDesc
            free cur.longDesc
            pure { s with rows := (s.rows.set j described).set i cur }
        | none =>
            -- The warning prints the name.
            match cur.name with
            | none => pure ()
            | some n => .emit (.read n)
            free cur.name
            free cur.shortDesc
            free cur.longDesc
            pure s

/-- The outer loop, for so many rows from slot `i` on. -/
def mergeRows : Nat → Nat → Merging H → Traced (OwnerEvent H) (Merging H)
  | 0, _, s => pure s
  | n + 1, i, s => do
      let s ← mergeRow text i s
      mergeRows n (i + 1) s

/-- `merge_curated_into_generated`, on the operations of an overlay. -/
def mergeCuratedIntoGenerated (rows : List (OpOverlay H)) :
    Traced (OwnerEvent H) (List (OpOverlay H)) := do
  let s ← mergeRows text rows.length 0 ⟨rows, 0⟩
  pure (s.rows.take s.kept)

end Source

/-! ## What the merge is for -/

/-- Two rows carry the same name. -/
def SameName (text : H → CStr) (row cur : OpOverlay H) : Prop :=
  row.name.isSome = true ∧ row.name.map text = cur.name.map text

instance (text : H → CStr) (row cur : OpOverlay H) : Decidable (SameName text row cur) :=
  inferInstanceAs (Decidable (_ ∧ _))

/-- A row with the descriptions of another. -/
def OpOverlay.describedBy (row cur : OpOverlay H) : OpOverlay H :=
  { row with shortDesc := cur.shortDesc, longDesc := cur.longDesc }

/-- Let a row describe the first row with an id and its name. -/
def describe (text : H → CStr) (rows : List (OpOverlay H)) (cur : OpOverlay H) :
    List (OpOverlay H) :=
  rows.replaceF fun row =>
    if row.IdKeyed ∧ SameName text row cur then some (row.describedBy cur) else none

/-- The rows keyed by a name, in order, describe the rows keyed by an id. -/
def merged (text : H → CStr) (rows : List (OpOverlay H)) : List (OpOverlay H) :=
  (rows.filter fun row => ¬row.IdKeyed).foldl (describe text) (rows.filter (·.IdKeyed))

section Describe

variable {text : H → CStr} {row cur : OpOverlay H}

theorem sameName_iff : SameName text row cur ↔
    ∃ n m, row.name = some n ∧ cur.name = some m ∧ text n = text m := by
  unfold SameName
  cases row.name <;> cases cur.name <;> simp [eq_comm]

theorem SameName.symm (same : SameName text row cur) : SameName text cur row := by
  obtain ⟨n, m, name, name', equal⟩ := sameName_iff.mp same
  exact sameName_iff.mpr ⟨m, n, name', name, equal.symm⟩

theorem SameName.trans {last : OpOverlay H} (first : SameName text row cur)
    (second : SameName text cur last) : SameName text row last :=
  ⟨first.1, first.2.trans second.2⟩

theorem sameName_describedBy {other : OpOverlay H} :
    SameName text (row.describedBy other) cur ↔ SameName text row cur := Iff.rfl

/-- No row is described where none has an id and the name. -/
theorem describe_none {rows : List (OpOverlay H)}
    (unmatched : ∀ row ∈ rows, ¬(row.IdKeyed ∧ SameName text row cur)) :
    describe text rows cur = rows :=
  List.replaceF_of_forall_none fun row member => if_neg (unmatched row member)

theorem describe_cons_pos (matched : row.IdKeyed ∧ SameName text row cur)
    (rows : List (OpOverlay H)) :
    describe text (row :: rows) cur = row.describedBy cur :: rows := by
  simp only [describe, List.replaceF_cons, if_pos matched]

theorem describe_cons_neg (unmatched : ¬(row.IdKeyed ∧ SameName text row cur))
    (rows : List (OpOverlay H)) :
    describe text (row :: rows) cur = row :: describe text rows cur := by
  simp only [describe, List.replaceF_cons, if_neg unmatched]

theorem describe_append {before : List (OpOverlay H)}
    (unmatched : ∀ row ∈ before, ¬(row.IdKeyed ∧ SameName text row cur))
    (after : List (OpOverlay H)) :
    describe text (before ++ after) cur = before ++ describe text after cur := by
  induction before with
  | nil => rfl
  | cons row before ih =>
      rw [List.cons_append, describe_cons_neg (unmatched row (by simp)),
        ih fun r member => unmatched r (by simp [member]), List.cons_append]

/-- The first row with an id and the name is described. -/
theorem describe_first {before : List (OpOverlay H)}
    (unmatched : ∀ row ∈ before, ¬(row.IdKeyed ∧ SameName text row cur))
    (matched : row.IdKeyed ∧ SameName text row cur) (after : List (OpOverlay H)) :
    describe text (before ++ row :: after) cur = before ++ row.describedBy cur :: after := by
  rw [describe_append unmatched, describe_cons_pos matched]

/-- Describing changes neither ids nor names. -/
theorem describe_keys (text : H → CStr) (rows : List (OpOverlay H)) (cur : OpOverlay H) :
    (describe text rows cur).map (fun row => (row.cmdId, row.name)) =
      rows.map fun row => (row.cmdId, row.name) := by
  induction rows with
  | nil => rfl
  | cons row rows ih =>
      by_cases matched : row.IdKeyed ∧ SameName text row cur
      · rw [describe_cons_pos matched]
        rfl
      · rw [describe_cons_neg matched, List.map_cons, ih, List.map_cons]

/-- Rows with an id stay rows with an id. -/
theorem keyed_describe {rows : List (OpOverlay H)} (keyed : ∀ row ∈ rows, row.IdKeyed) :
    ∀ row ∈ describe text rows cur, row.IdKeyed := by
  intro row member
  have listed : (row.cmdId, row.name) ∈ rows.map fun row => (row.cmdId, row.name) :=
    describe_keys text rows cur ▸ List.mem_map_of_mem member
  obtain ⟨other, member', equal⟩ := List.mem_map.mp listed
  have id : other.cmdId = row.cmdId := (Prod.mk.inj equal).1
  simpa only [OpOverlay.IdKeyed, id] using keyed other member'

/-- Describing among all rows is describing among those with an id. -/
theorem describe_filter (text : H → CStr) (rows : List (OpOverlay H)) (cur : OpOverlay H) :
    (describe text rows cur).filter (·.IdKeyed) = describe text (rows.filter (·.IdKeyed)) cur ∧
      (describe text rows cur).filter (fun row => ¬row.IdKeyed) =
        rows.filter fun row => ¬row.IdKeyed := by
  induction rows with
  | nil => exact ⟨rfl, rfl⟩
  | cons row rows ih =>
      obtain ⟨keyed, named⟩ := ih
      by_cases matched : row.IdKeyed ∧ SameName text row cur
      · have stays : (row.describedBy cur).IdKeyed := matched.1
        simp [describe_cons_pos matched, stays, matched.1]
      · by_cases hasId : row.IdKeyed
        · simpa [describe_cons_neg matched, hasId, ← keyed] using named
        · simpa [describe_cons_neg matched, hasId, ← keyed] using named

end Describe

/-! ## The row that is left -/

section Closed

variable (text : H → CStr)

/-- A row with an id after the merge, given the rows with an id before it and the
rows keyed by a name: the last of these that carries its name describes it, when it
is the first with this name. -/
def mergedRow (before : List (OpOverlay H)) (row : OpOverlay H) (named : List (OpOverlay H)) :
    OpOverlay H :=
  if ∃ other ∈ before, SameName text other row then row
  else
    match (named.filter fun cur => SameName text row cur).getLast? with
    | none => row
    | some cur => row.describedBy cur

variable {text}

theorem mergedRow_shadowed {before : List (OpOverlay H)} {row : OpOverlay H}
    (shadowed : ∃ other ∈ before, SameName text other row) (named : List (OpOverlay H)) :
    mergedRow text before row named = row := if_pos shadowed

/-- A row keyed by another name does not matter. -/
theorem mergedRow_skip {row cur : OpOverlay H} (other : ¬SameName text row cur)
    (before named : List (OpOverlay H)) :
    mergedRow text before row (cur :: named) = mergedRow text before row named := by
  unfold mergedRow
  rw [List.filter_cons_of_neg (by simpa using other)]

/-- A later row keyed by the name overrides an earlier one. -/
theorem mergedRow_describedBy {row cur : OpOverlay H} (same : SameName text row cur)
    {before : List (OpOverlay H)} (first : ¬∃ other ∈ before, SameName text other row)
    (named : List (OpOverlay H)) :
    mergedRow text before (row.describedBy cur) named =
      mergedRow text before row (cur :: named) := by
  have unshadowed : ¬∃ other ∈ before, SameName text other (row.describedBy cur) := first
  rw [mergedRow, if_neg unshadowed, mergedRow, if_neg first,
    List.filter_cons_of_pos (by simpa using same), List.getLast?_cons]
  simp only [sameName_describedBy]
  cases (named.filter fun cur => SameName text row cur).getLast? <;> rfl

theorem sameName_of_keys {rows rows' : List (OpOverlay H)} {row : OpOverlay H}
    (keys : rows.map (fun row => (row.cmdId, row.name)) = rows'.map fun row => (row.cmdId, row.name))
    (shadowed : ∃ other ∈ rows, SameName text other row) :
    ∃ other ∈ rows', SameName text other row := by
  obtain ⟨other, member, same⟩ := shadowed
  have listed : (other.cmdId, other.name) ∈ rows'.map fun row => (row.cmdId, row.name) :=
    keys ▸ List.mem_map_of_mem member
  obtain ⟨other', member', equal⟩ := List.mem_map.mp listed
  refine ⟨other', member', ?_⟩
  have name : other'.name = other.name := (Prod.mk.inj equal).2
  simpa only [SameName, name] using same

/-- A row keyed by the name of an earlier row describes that one, not this one. -/
theorem mergedRow_earlier {first last : List (OpOverlay H)} {row other cur : OpOverlay H}
    (matched : SameName text other cur) (named : List (OpOverlay H)) :
    mergedRow text (first ++ other.describedBy cur :: last) row named =
      mergedRow text (first ++ other :: last) row (cur :: named) := by
  have keys : (first ++ other.describedBy cur :: last).map (fun row => (row.cmdId, row.name)) =
      (first ++ other :: last).map fun row => (row.cmdId, row.name) := by
    simp [OpOverlay.describedBy]
  by_cases shadowed : ∃ r ∈ first ++ other :: last, SameName text r row
  · rw [mergedRow_shadowed shadowed, mergedRow_shadowed (sameName_of_keys keys.symm shadowed)]
  · have differs : ¬SameName text row cur := fun same =>
      shadowed ⟨other, by simp, matched.trans same.symm⟩
    rw [mergedRow_skip differs, mergedRow, mergedRow, if_neg shadowed,
      if_neg fun shadowed' => shadowed (sameName_of_keys keys shadowed')]

/-- **What folding over the rows keyed by a name leaves at each place.** -/
theorem foldl_describe_get (named : List (OpOverlay H)) {before after : List (OpOverlay H)}
    {row : OpOverlay H} (keyed : ∀ r ∈ before ++ row :: after, r.IdKeyed) :
    (named.foldl (describe text) (before ++ row :: after))[before.length]? =
      some (mergedRow text before row named) := by
  induction named generalizing before row after with
  | nil =>
      have unchanged : mergedRow text before row [] = row := by
        unfold mergedRow
        split <;> rfl
      simp [unchanged]
  | cons cur named ih =>
      have keyed' : ∀ r ∈ describe text (before ++ row :: after) cur, r.IdKeyed :=
        keyed_describe keyed
      rw [List.foldl_cons]
      cases found : before.find? fun other => SameName text other cur with
      | some other =>
          -- An earlier row takes the descriptions, so this row stays as it is.
          obtain ⟨matched, first, last, rfl, unmatched⟩ := List.find?_eq_some_iff_append.mp found
          have matched : SameName text other cur := by simpa using matched
          have described : describe text (first ++ other :: last ++ row :: after) cur =
              (first ++ other.describedBy cur :: last) ++ row :: after := by
            rw [List.append_assoc, List.cons_append, describe_first (fun r member both => ?_)
              ⟨keyed other (by simp), matched⟩]
            · simp
            · simpa [both.2] using unmatched r member
          have length : (first ++ other :: last).length =
              (first ++ other.describedBy cur :: last).length := by simp
          rw [described] at keyed' ⊢
          rw [length, ih keyed', mergedRow_earlier matched]
      | none =>
          have unmatched : ∀ r ∈ before, ¬SameName text r cur := by
            simpa using List.find?_eq_none.mp found
          by_cases same : SameName text row cur
          · have first : ¬∃ other ∈ before, SameName text other row := by
              rintro ⟨r, member, shared⟩
              exact unmatched r member (shared.trans same)
            rw [describe_first (fun r member both => unmatched r member both.2)
              ⟨keyed row (by simp), same⟩] at keyed' ⊢
            rw [ih keyed', mergedRow_describedBy same first]
          · rw [describe_append (fun r member both => unmatched r member both.2),
              describe_cons_neg fun both => same both.2] at keyed' ⊢
            rw [ih keyed', mergedRow_skip same]

end Closed

/-! ## The walk -/

/-- The strings a list of rows owns. -/
def strings (rows : List (OpOverlay H)) : List H := rows.flatMap OpOverlay.strings

/-- The array while it is merged: the rows kept, the stale copies, and the rows
still to come. -/
structure Layout (s : Merging H) (i : Nat) (kept stale todo : List (OpOverlay H)) : Prop where
  rows : s.rows = kept ++ stale ++ todo
  count : s.kept = kept.length
  slot : i = (kept ++ stale).length
  keyed : ∀ row ∈ kept, row.IdKeyed
  shadowed : ∀ row ∈ stale, row.IdKeyed → ∃ live ∈ kept, live.name = row.name

section Search

variable {text : H → CStr} {cur row : OpOverlay H} {i j : Nat}

theorem findGenerated_hit (elsewhere : j ≠ i) (matched : row.IdKeyed ∧ SameName text row cur)
    (rest : List (OpOverlay H)) :
    (findGenerated text cur i j (row :: rest)).val = some (j, row) := by
  obtain ⟨keyed, same⟩ := matched
  obtain ⟨n, m, name, name', equal⟩ := sameName_iff.mp same
  simp only [OpOverlay.IdKeyed] at keyed
  simp [findGenerated, elsewhere, keyed, name, name', equal]

theorem findGenerated_miss (missed : j = i ∨ ¬(row.IdKeyed ∧ SameName text row cur))
    (rest : List (OpOverlay H)) :
    (findGenerated text cur i j (row :: rest)).val =
      (findGenerated text cur i (j + 1) rest).val := by
  rw [findGenerated]
  split
  · rfl
  split
  · next elsewhere keyed =>
      split
      · next n m name name' =>
          have differs : text n ≠ text m := fun equal =>
            missed.elim elsewhere fun other => other ⟨keyed, sameName_iff.mpr ⟨n, m, name, name', equal⟩⟩
          simp [differs]
      · rfl
  · rfl

theorem findGenerated_append (text : H → CStr) (cur : OpOverlay H) (i j : Nat)
    (xs ys : List (OpOverlay H))
    (missed : ∀ row ∈ xs, ¬(row.IdKeyed ∧ SameName text row cur)) :
    (findGenerated text cur i j (xs ++ ys)).val =
      (findGenerated text cur i (j + xs.length) ys).val := by
  induction xs generalizing j with
  | nil => rfl
  | cons row xs ih =>
      rw [List.cons_append, findGenerated_miss (.inr (missed row (by simp))),
        ih _ fun r member => missed r (by simp [member]), List.length_cons, Nat.add_assoc,
        Nat.add_comm 1]

/-- The search reads the name of the current row and names of rows with an id. -/
theorem findGenerated_reads (rows : List (OpOverlay H)) :
    ∀ e ∈ (findGenerated text cur i j rows).log,
      ∃ h, e = .read h ∧ (h ∈ cur.name ∨ ∃ row ∈ rows, row.IdKeyed ∧ h ∈ row.name) := by
  induction rows generalizing j with
  | nil => simp [findGenerated]
  | cons row rest ih =>
      have later : ∀ e ∈ (findGenerated text cur i (j + 1) rest).log,
          ∃ h, e = .read h ∧ (h ∈ cur.name ∨ ∃ r ∈ row :: rest, r.IdKeyed ∧ h ∈ r.name) := by
        intro e member
        obtain ⟨h, same, held⟩ := ih e member
        refine ⟨h, same, held.imp_right ?_⟩
        rintro ⟨r, member', more⟩
        exact ⟨r, List.mem_cons_of_mem _ member', more⟩
      rw [findGenerated]
      split
      · exact later
      split
      · next keyed =>
          split
          · next n m name name' =>
              intro e member
              simp only [Traced.log_bind, Traced.log_emit, List.mem_append, List.mem_singleton] at member
              rcases member with rfl | rfl | member
              · exact ⟨n, rfl, .inr ⟨row, by simp, keyed, name⟩⟩
              · exact ⟨m, rfl, .inl name'⟩
              · split at member
                · simp at member
                · exact later e member
          · exact later
      · exact later

end Search

section Walk

variable {text : H → CStr}

/-- What the rows kept and the rows to come amount to. -/
def target (text : H → CStr) (kept todo : List (OpOverlay H)) : List (OpOverlay H) :=
  (todo.filter fun row => ¬row.IdKeyed).foldl (describe text) (kept ++ todo.filter (·.IdKeyed))

theorem filter_keyed {kept : List (OpOverlay H)} (keyed : ∀ row ∈ kept, row.IdKeyed) :
    kept.filter (·.IdKeyed) = kept ∧ kept.filter (fun row => ¬row.IdKeyed) = [] := by
  constructor
  · exact List.filter_eq_self.mpr fun row member => by simpa using keyed row member
  · exact List.filter_eq_nil_iff.mpr fun row member => by simpa using keyed row member

/-- Letting a row describe another among the rows kept and to come is a step of
the fold over the rows keyed by a name. -/
theorem target_describe {kept kept' rest rest' : List (OpOverlay H)} {cur : OpOverlay H}
    (named : ¬cur.IdKeyed) (keyed : ∀ row ∈ kept, row.IdKeyed)
    (keyed' : ∀ row ∈ kept', row.IdKeyed)
    (described : kept' ++ rest' = describe text (kept ++ rest) cur) :
    target text kept' rest' = target text kept (cur :: rest) := by
  obtain ⟨ids, names⟩ := describe_filter text (kept ++ rest) cur
  rw [← described, List.filter_append, List.filter_append, (filter_keyed keyed).1,
    (filter_keyed keyed').1] at ids
  rw [← described, List.filter_append, List.filter_append, (filter_keyed keyed).2,
    (filter_keyed keyed').2, List.nil_append, List.nil_append] at names
  rw [target, names, ids, target, List.filter_cons_of_neg (by simpa using named),
    List.filter_cons_of_pos (by simpa using named), List.foldl_cons]

theorem free_log (s : Option H) : (free s).log = s.toList.map .free := by
  cases s <;> rfl

@[simp] theorem strings_append (xs ys : List (OpOverlay H)) :
    strings (xs ++ ys) = strings xs ++ strings ys := List.flatMap_append

@[simp] theorem strings_cons (row : OpOverlay H) (rows : List (OpOverlay H)) :
    strings (row :: rows) = row.strings ++ strings rows := List.flatMap_cons

@[simp] theorem strings_nil : strings ([] : List (OpOverlay H)) = [] := rfl

theorem name_mem_strings {rows : List (OpOverlay H)} {row : OpOverlay H} {h : H}
    (member : row ∈ rows) (name : h ∈ row.name) : h ∈ strings rows :=
  List.mem_flatMap.mpr ⟨row, member, by simp [OpOverlay.strings, Option.mem_def.mp name]⟩

/-- The search only reads strings of the rows kept and to come: a stale copy of a
row with an id shares its name with the live one. -/
theorem findGenerated_owns (text : H → CStr) {s : Merging H} {i : Nat} {kept stale rest : List (OpOverlay H)}
    {cur : OpOverlay H} (layout : Layout s i kept stale (cur :: rest)) :
    Owns (strings (kept ++ cur :: rest)) (findGenerated text cur i 0 s.rows).log
      (strings (kept ++ cur :: rest)) := by
  refine .reads ?_
  intro e member
  obtain ⟨h, rfl, source⟩ := findGenerated_reads s.rows e member
  refine ⟨h, ?_, rfl⟩
  rcases source with name | ⟨row, member, keyed, name⟩
  · exact name_mem_strings (by simp) name
  · rw [layout.rows, List.mem_append, List.mem_append] at member
    rcases member with (member | member) | member
    · exact name_mem_strings (List.mem_append_left _ member) name
    · obtain ⟨live, member', same⟩ := layout.shadowed row member keyed
      exact name_mem_strings (List.mem_append_left _ member') (same ▸ name)
    · exact name_mem_strings (List.mem_append_right _ member) name

/-- When a row is found its descriptions are freed and replaced by those of the
current row, whose name is freed. -/
theorem described_owns (before after : List (OpOverlay H)) (row cur : OpOverlay H)
    {held : List H} (split : (strings (before ++ row :: after) ++ cur.strings).Perm held) :
    Owns held ((row.shortDesc.toList ++ row.longDesc.toList ++ cur.name.toList).map .free)
      (strings (before ++ row.describedBy cur :: after)) := by
  classical
  refine .frees (List.Perm.trans ?_ split)
  rw [List.perm_iff_count]
  intro h
  simp only [strings_append, strings_cons, OpOverlay.strings, OpOverlay.describedBy,
    List.count_append]
  omega

theorem strings_current (kept rest : List (OpOverlay H)) (cur : OpOverlay H) :
    (strings (kept ++ rest) ++ cur.strings).Perm (strings (kept ++ cur :: rest)) := by
  rw [strings_append, strings_append, strings_cons, List.append_assoc]
  exact List.perm_append_comm.append_left _

/-- What the body of the loop does when the search finds a row. -/
theorem mergeRow_found {s : Merging H} {i j : Nat} {row cur : OpOverlay H}
    (current : s.rows[i]? = some cur) (named : ¬cur.IdKeyed)
    (found : (findGenerated text cur i 0 s.rows).val = some (j, row)) :
    (mergeRow text i s).val =
        ⟨(s.rows.set j (row.describedBy cur)).set i ⟨cur.cmdId, cur.name, none, none⟩, s.kept⟩ ∧
      (mergeRow text i s).log = (findGenerated text cur i 0 s.rows).log ++
        (row.shortDesc.toList ++ row.longDesc.toList ++ cur.name.toList).map .free := by
  simp only [OpOverlay.IdKeyed] at named
  simp [mergeRow, current, named, found, free_log, OpOverlay.describedBy]

/-- What the body of the loop does when the search finds nothing. -/
theorem mergeRow_missed {s : Merging H} {i : Nat} {cur : OpOverlay H}
    (current : s.rows[i]? = some cur) (named : ¬cur.IdKeyed)
    (missed : (findGenerated text cur i 0 s.rows).val = none) :
    (mergeRow text i s).val = s ∧
      (mergeRow text i s).log = (findGenerated text cur i 0 s.rows).log ++
        (cur.name.toList.map .read ++ cur.strings.map .free) := by
  simp only [OpOverlay.IdKeyed] at named
  cases name : cur.name <;>
    simp [mergeRow, current, named, missed, free_log, OpOverlay.strings, name]

theorem set_middle {α : Type} (xs ys : List α) (x y : α) :
    (xs ++ x :: ys).set xs.length y = xs ++ y :: ys := by
  simp

/-- A row with an id is kept. -/
theorem mergeRow_keyed (text : H → CStr) {s : Merging H} {i : Nat} {kept stale rest : List (OpOverlay H)}
    {cur : OpOverlay H} (layout : Layout s i kept stale (cur :: rest)) (keyed : cur.IdKeyed)
    (current : s.rows[i]? = some cur) :
    (mergeRow text i s).log = [] ∧
      ∃ stale', Layout (mergeRow text i s).val (i + 1) (kept ++ [cur]) stale' rest := by
  obtain ⟨rows, count, slot, live, shadowed⟩ := layout
  have live' : ∀ row ∈ kept ++ [cur], row.IdKeyed := by
    intro row member
    rcases List.mem_append.mp member with member | member
    · exact live row member
    · exact List.mem_singleton.mp member ▸ keyed
  have body : mergeRow text i s =
      pure { rows := if s.kept ≠ i then s.rows.set s.kept cur else s.rows, kept := s.kept + 1 } := by
    simp only [OpOverlay.IdKeyed] at keyed
    simp [mergeRow, current, keyed]
  rw [body]
  refine ⟨rfl, ?_⟩
  cases stale with
  | nil =>
      have inPlace : s.kept = i := by simpa [count] using slot.symm
      refine ⟨[], ?_, by simp [count], by simpa using slot, live', by simp⟩
      simp [inPlace, rows]
  | cons first stale =>
      have moved : s.kept ≠ i := by
        simp only [List.length_append, List.length_cons] at slot
        omega
      refine ⟨stale ++ [cur], ?_, by simp [count], ?_, live', ?_⟩
      · rw [Traced.val_pure, if_pos moved, rows, count, List.append_assoc, List.cons_append,
          set_middle]
        simp
      · simp only [List.length_append, List.length_cons, List.length_nil] at slot ⊢
        omega
      · intro row member isKeyed
        rcases List.mem_append.mp member with member | member
        · obtain ⟨other, member', same⟩ := shadowed row (by simp [member]) isKeyed
          exact ⟨other, List.mem_append_left _ member', same⟩
        · exact ⟨cur, by simp, by rw [List.mem_singleton.mp member]⟩

/-- What a step of the walk keeps: the layout, what the rows amount to, and the ledger. -/
def Advances (text : H → CStr) (s : Merging H) (i : Nat) (kept rest : List (OpOverlay H))
    (cur : OpOverlay H) : Prop :=
  ∃ kept' stale' rest', Layout (mergeRow text i s).val (i + 1) kept' stale' rest' ∧
    rest'.length = rest.length ∧
    target text kept' rest' = target text kept (cur :: rest) ∧
    Owns (strings (kept ++ cur :: rest)) (mergeRow text i s).log (strings (kept' ++ rest'))

section Step

variable {s : Merging H} {i : Nat} {kept stale rest : List (OpOverlay H)} {cur : OpOverlay H}

theorem Layout.current (layout : Layout s i kept stale (cur :: rest)) : s.rows[i]? = some cur := by
  rw [layout.rows, layout.slot, List.getElem?_append_right (le_refl _)]
  simp

/-- The slot of the current row may become stale: a row keyed by a name needs no live copy. -/
theorem Layout.shadowed_append (layout : Layout s i kept stale (cur :: rest)) {last : OpOverlay H}
    (named : ¬last.IdKeyed) {kept' : List (OpOverlay H)}
    (present : ∀ live ∈ kept, ∃ live' ∈ kept', live'.name = live.name) :
    ∀ row ∈ stale ++ [last], row.IdKeyed → ∃ live ∈ kept', live.name = row.name := by
  intro row member isKeyed
  rcases List.mem_append.mp member with member | member
  · obtain ⟨live, member', name⟩ := layout.shadowed row member isKeyed
    obtain ⟨live', member'', name'⟩ := present live member'
    exact ⟨live', member'', name'.trans name⟩
  · rw [List.mem_singleton.mp member] at isKeyed
    exact absurd isKeyed named

/-- The first row with an id and the name of the current one. -/
theorem find_matched {rows : List (OpOverlay H)} {row : OpOverlay H}
    (found : (rows.find? fun row => row.IdKeyed ∧ SameName text row cur) = some row) :
    (row.IdKeyed ∧ SameName text row cur) ∧ ∃ before after, rows = before ++ row :: after ∧
      ∀ r ∈ before, ¬(r.IdKeyed ∧ SameName text r cur) := by
  obtain ⟨matched, before, after, split, unmatched⟩ := List.find?_eq_some_iff_append.mp found
  refine ⟨by simpa using matched, before, after, split, ?_⟩
  intro r member both
  simpa [both] using unmatched r member

/-- A row that was kept is described. -/
theorem mergeRow_describesKept {before after : List (OpOverlay H)} {row : OpOverlay H}
    (layout : Layout s i (before ++ row :: after) stale (cur :: rest)) (named : ¬cur.IdKeyed)
    (unmatched : ∀ r ∈ before, ¬(r.IdKeyed ∧ SameName text r cur))
    (matched : row.IdKeyed ∧ SameName text row cur) :
    Advances text s i (before ++ row :: after) rest cur := by
  have slot := layout.slot
  simp only [List.length_append, List.length_cons] at slot
  have arranged : s.rows = before ++ row :: (after ++ stale ++ cur :: rest) := by
    rw [layout.rows]
    simp
  have found : (findGenerated text cur i 0 s.rows).val = some (0 + before.length, row) := by
    rw [arranged, findGenerated_append _ _ _ _ _ _ unmatched,
      findGenerated_hit (by omega) matched]
  obtain ⟨val, log⟩ := mergeRow_found layout.current named found
  have live : ∀ r ∈ before ++ row.describedBy cur :: after, r.IdKeyed := by
    rw [← describe_first unmatched matched]
    exact keyed_describe layout.keyed
  have present : ∀ r ∈ before ++ row :: after,
      ∃ r' ∈ before ++ row.describedBy cur :: after, r'.name = r.name := by
    intro r member
    simp only [List.mem_append, List.mem_cons] at member
    rcases member with member | rfl | member
    · exact ⟨r, by simp [member], rfl⟩
    · exact ⟨r.describedBy cur, by simp, rfl⟩
    · exact ⟨r, by simp [member], rfl⟩
  have freed : ¬(⟨cur.cmdId, cur.name, none, none⟩ : OpOverlay H).IdKeyed := named
  refine ⟨before ++ row.describedBy cur :: after, stale ++ [⟨cur.cmdId, cur.name, none, none⟩],
    rest, ⟨?_, ?_, ?_, live, layout.shadowed_append freed present⟩, rfl, ?_, ?_⟩
  · have placed : i = (before ++ row.describedBy cur :: (after ++ stale)).length := by
      simp only [List.length_append, List.length_cons]
      omega
    rw [val, arranged, Nat.zero_add, set_middle]
    simp only
    rw [show before ++ row.describedBy cur :: (after ++ stale ++ cur :: rest) =
      (before ++ row.describedBy cur :: (after ++ stale)) ++ cur :: rest by simp, placed,
      set_middle]
    simp
  · rw [val]
    simpa using layout.count
  · simp only [List.length_append, List.length_cons, List.length_nil]
    omega
  · refine target_describe named layout.keyed live ?_
    rw [List.append_assoc, List.append_assoc, List.cons_append, List.cons_append,
      describe_first unmatched matched]
  · rw [log]
    have drop := strings_current (before ++ row :: after) rest cur
    have owns := described_owns before (after ++ rest) row cur (by simpa using drop)
    exact (findGenerated_owns text layout).trans (by simpa using owns)

/-- Without a match among the rows kept the search goes on with the rows to come. It does not
match a stale copy, whose live copy is among the rows kept. -/
theorem findGenerated_rest (layout : Layout s i kept stale (cur :: rest))
    (unmatched : ∀ row ∈ kept, ¬(row.IdKeyed ∧ SameName text row cur)) :
    (findGenerated text cur i 0 s.rows).val = (findGenerated text cur i (i + 1) rest).val := by
  have unmatchedStale : ∀ row ∈ stale, ¬(row.IdKeyed ∧ SameName text row cur) := by
    rintro row member ⟨isKeyed, same⟩
    obtain ⟨live, member', name⟩ := layout.shadowed row member isKeyed
    exact unmatched live member' ⟨layout.keyed live member', by simpa [SameName, name] using same⟩
  rw [layout.rows, findGenerated_append _ _ _ _ _ _ (List.forall_mem_append.mpr
    ⟨unmatched, unmatchedStale⟩), findGenerated_miss (.inl (by rw [layout.slot]; omega)),
    layout.slot, Nat.zero_add]

/-- A row still to come is described. -/
theorem mergeRow_describesRest {before after : List (OpOverlay H)} {row : OpOverlay H}
    (layout : Layout s i kept stale (cur :: (before ++ row :: after))) (named : ¬cur.IdKeyed)
    (unmatched : ∀ r ∈ kept, ¬(r.IdKeyed ∧ SameName text r cur))
    (unmatchedRest : ∀ r ∈ before, ¬(r.IdKeyed ∧ SameName text r cur))
    (matched : row.IdKeyed ∧ SameName text row cur) :
    Advances text s i kept (before ++ row :: after) cur := by
  have slot := layout.slot
  simp only [List.length_append] at slot
  have found : (findGenerated text cur i 0 s.rows).val = some (i + 1 + before.length, row) := by
    rw [findGenerated_rest layout unmatched, findGenerated_append _ _ _ _ _ _ unmatchedRest,
      findGenerated_hit (by omega) matched]
  obtain ⟨val, log⟩ := mergeRow_found layout.current named found
  have freed : ¬(⟨cur.cmdId, cur.name, none, none⟩ : OpOverlay H).IdKeyed := named
  refine ⟨kept, stale ++ [⟨cur.cmdId, cur.name, none, none⟩], before ++ row.describedBy cur :: after,
    ⟨?_, ?_, ?_, layout.keyed, layout.shadowed_append freed fun r member => ⟨r, member, rfl⟩⟩,
    by simp, ?_, ?_⟩
  · have placed : i + 1 + before.length = (kept ++ stale ++ cur :: before).length := by
      simp only [List.length_append, List.length_cons]
      omega
    rw [val, layout.rows, show kept ++ stale ++ cur :: (before ++ row :: after) =
      (kept ++ stale ++ cur :: before) ++ row :: after by simp, placed, set_middle]
    simp only
    rw [show kept ++ stale ++ cur :: before ++ row.describedBy cur :: after =
      (kept ++ stale) ++ cur :: (before ++ row.describedBy cur :: after) by simp,
      layout.slot, set_middle]
    simp
  · rw [val]
    exact layout.count
  · simp only [List.length_append, List.length_cons, List.length_nil]
    omega
  · refine target_describe named layout.keyed layout.keyed ?_
    rw [describe_append unmatched, describe_first unmatchedRest matched]
  · rw [log]
    have drop := strings_current kept (before ++ row :: after) cur
    have owns := described_owns (kept ++ before) after row cur (by simpa using drop)
    exact (findGenerated_owns text layout).trans (by simpa using owns)

/-- No row is described, and the current one is dropped. -/
theorem mergeRow_drops (layout : Layout s i kept stale (cur :: rest)) (named : ¬cur.IdKeyed)
    (unmatched : ∀ r ∈ kept, ¬(r.IdKeyed ∧ SameName text r cur))
    (unmatchedRest : ∀ r ∈ rest, ¬(r.IdKeyed ∧ SameName text r cur)) :
    Advances text s i kept rest cur := by
  have slot := layout.slot
  simp only [List.length_append] at slot
  have missed : (findGenerated text cur i 0 s.rows).val = none := by
    have passed := findGenerated_append text cur i (i + 1) rest [] unmatchedRest
    rw [findGenerated_rest layout unmatched, ← List.append_nil rest, passed]
    rfl
  obtain ⟨val, log⟩ := mergeRow_missed layout.current named missed
  refine ⟨kept, stale ++ [cur], rest, ⟨?_, ?_, ?_, layout.keyed,
    layout.shadowed_append named fun r member => ⟨r, member, rfl⟩⟩, rfl, ?_, ?_⟩
  · rw [val, layout.rows]
    simp
  · rw [val]
    exact layout.count
  · simp only [List.length_append, List.length_cons, List.length_nil]
    omega
  · refine target_describe named layout.keyed layout.keyed ?_
    rw [describe_none (List.forall_mem_append.mpr ⟨unmatched, unmatchedRest⟩)]
  · rw [log]
    refine (findGenerated_owns text layout).trans
      (Owns.trans (Owns.reads ?_) (.frees (strings_current kept rest cur)))
    intro e member
    obtain ⟨h, name, rfl⟩ := List.mem_map.mp member
    exact ⟨h, name_mem_strings (by simp) (Option.mem_toList.mp name), rfl⟩

/-- The steps of the walk. -/
theorem mergeRow_layout (text : H → CStr) (layout : Layout s i kept stale (cur :: rest)) :
    Advances text s i kept rest cur := by
  by_cases keyed : cur.IdKeyed
  · obtain ⟨log, stale', next⟩ := mergeRow_keyed text layout keyed layout.current
    refine ⟨kept ++ [cur], stale', rest, next, rfl, ?_, ?_⟩
    · simp [target, keyed]
    · rw [log]
      simpa using Owns.nothing (strings (kept ++ cur :: rest))
  cases inKept : kept.find? fun row => row.IdKeyed ∧ SameName text row cur with
  | some row =>
      obtain ⟨matched, before, after, rfl, unmatched⟩ := find_matched inKept
      exact mergeRow_describesKept layout keyed unmatched matched
  | none =>
      have unmatched : ∀ row ∈ kept, ¬(row.IdKeyed ∧ SameName text row cur) := by
        simpa using List.find?_eq_none.mp inKept
      cases inRest : rest.find? fun row => row.IdKeyed ∧ SameName text row cur with
      | some row =>
          obtain ⟨matched, before, after, rfl, unmatchedRest⟩ := find_matched inRest
          exact mergeRow_describesRest layout keyed unmatched unmatchedRest matched
      | none =>
          have unmatchedRest : ∀ row ∈ rest, ¬(row.IdKeyed ∧ SameName text row cur) := by
            simpa using List.find?_eq_none.mp inRest
          exact mergeRow_drops layout keyed unmatched unmatchedRest

end Step

/-- The run of the walk. -/
theorem mergeRows_layout (text : H → CStr) {s : Merging H} {i : Nat} {kept stale todo : List (OpOverlay H)}
    (layout : Layout s i kept stale todo) :
    (mergeRows text todo.length i s).val.rows.take (mergeRows text todo.length i s).val.kept =
        target text kept todo ∧
      Owns (strings (kept ++ todo)) (mergeRows text todo.length i s).log
        (strings (target text kept todo)) := by
  induction hn : todo.length generalizing s i kept stale todo with
  | zero =>
      obtain rfl := List.length_eq_zero_iff.mp hn
      have done : target text kept [] = kept := by simp [target]
      rw [done, mergeRows, List.append_nil]
      refine ⟨?_, .nothing _⟩
      rw [Traced.val_pure, layout.rows, layout.count, List.append_assoc]
      exact List.take_left
  | succ n ih =>
      obtain ⟨cur, rest, rfl⟩ := List.exists_cons_of_length_eq_add_one hn
      obtain ⟨kept', stale', rest', next, length, same, owns⟩ :=
        mergeRow_layout text layout
      have count : rest'.length = n := by
        rw [length]
        simpa using hn
      obtain ⟨result, later⟩ := ih next count
      rw [mergeRows, Traced.val_bind, Traced.log_bind, ← same]
      exact ⟨result, owns.trans later⟩

end Walk

/-- **The merge is the fold, and its ledger balances.** -/
theorem mergeCuratedIntoGenerated_merged (text : H → CStr) (rows : List (OpOverlay H)) :
    (mergeCuratedIntoGenerated text rows).val = merged text rows ∧
      Owns (strings rows) (mergeCuratedIntoGenerated text rows).log
        (strings (merged text rows)) := by
  have start : Layout ⟨rows, 0⟩ 0 [] [] rows := ⟨rfl, rfl, rfl, by simp, by simp⟩
  obtain ⟨result, owns⟩ := mergeRows_layout text start
  exact ⟨result, by simpa [mergeCuratedIntoGenerated, target, merged] using owns⟩

/-- The row that is left of each row with an id, in the terms of the rows given. -/
theorem merged_get (text : H → CStr) {rows before after : List (OpOverlay H)} {row : OpOverlay H}
    (split : rows.filter (·.IdKeyed) = before ++ row :: after) :
    (merged text rows)[before.length]? =
      some (mergedRow text before row (rows.filter fun row => ¬row.IdKeyed)) := by
  rw [merged, split]
  refine foldl_describe_get _ ?_
  intro r member
  have := (List.mem_filter.mp (split ▸ member)).2
  simpa using this

/-- Merging keeps the rows with an id, with their ids and names, in order. -/
theorem merged_keys (text : H → CStr) (rows : List (OpOverlay H)) :
    (merged text rows).map (fun row => (row.cmdId, row.name)) =
      (rows.filter (·.IdKeyed)).map fun row => (row.cmdId, row.name) := by
  unfold merged
  generalize rows.filter (fun row => ¬row.IdKeyed) = named
  generalize rows.filter (·.IdKeyed) = keyed
  induction named generalizing keyed with
  | nil => rfl
  | cons cur named ih => rw [List.foldl_cons, ih, describe_keys]

/-! ## The order of the rows -/

section Order

variable {text : H → CStr}

/-- Without another row of its name before it, a row with an id is described wherever it is. -/
theorem mergedRow_first {before : List (OpOverlay H)} {row : OpOverlay H}
    (first : ∀ other ∈ before, ¬SameName text other row) (named : List (OpOverlay H)) :
    mergedRow text before row named = mergedRow text [] row named := by
  have unshadowed : ¬∃ other ∈ before, SameName text other row := by
    rintro ⟨other, member, same⟩
    exact first other member same
  rw [mergedRow, mergedRow, if_neg unshadowed, if_neg (by simp)]

/-- Where the names of the rows with an id are distinct, each of these rows is described on
its own. -/
theorem merged_eq_map {rows : List (OpOverlay H)}
    (distinct : (rows.filter (·.IdKeyed)).Pairwise fun row other => ¬SameName text row other) :
    merged text rows = (rows.filter (·.IdKeyed)).map fun row =>
      mergedRow text [] row (rows.filter fun row => ¬row.IdKeyed) := by
  apply List.ext_getElem?
  intro i
  have length : (merged text rows).length = (rows.filter (·.IdKeyed)).length := by
    simpa using congrArg List.length (merged_keys text rows)
  by_cases inside : i < (rows.filter (·.IdKeyed)).length
  · obtain ⟨before, row, after, split, at_⟩ :
        ∃ before row after, rows.filter (·.IdKeyed) = before ++ row :: after ∧ before.length = i :=
      ⟨_, _, _, (List.take_append_drop i _).symm.trans
        (by rw [List.drop_eq_getElem_cons inside]), List.length_take_of_le (le_of_lt inside)⟩
    subst at_
    have first : ∀ other ∈ before, ¬SameName text other row := by
      rw [split, List.pairwise_append] at distinct
      intro other member
      exact distinct.2.2 other member row List.mem_cons_self
    rw [merged_get text split, mergedRow_first first, List.getElem?_map, split]
    simp
  · rw [List.getElem?_eq_none (by omega), List.getElem?_eq_none (by simpa using inside)]

/-- A row is described alike when one row at most is keyed by its name. -/
theorem mergedRow_perm {row : OpOverlay H} {named named' : List (OpOverlay H)}
    (one : ∀ cur ∈ named, ∀ cur' ∈ named, SameName text row cur → SameName text row cur' →
      cur = cur')
    (perm : named.Perm named') : mergedRow text [] row named = mergedRow text [] row named' := by
  have last : (named.filter fun cur => SameName text row cur).getLast? =
      (named'.filter fun cur => SameName text row cur).getLast? := by
    have filtered := perm.filter fun cur => decide (SameName text row cur)
    have same : ∀ cur ∈ named.filter (fun cur => decide (SameName text row cur)),
        ∀ cur' ∈ named.filter (fun cur => decide (SameName text row cur)), cur = cur' := by
      intro cur member cur' member'
      rw [List.mem_filter, decide_eq_true_eq] at member member'
      exact one cur member.1 cur' member'.1 member.2 member'.2
    generalize named.filter _ = found, named'.filter _ = found' at filtered same
    cases found with
    | nil => rw [List.nil_perm.mp filtered]
    | cons cur rest =>
        have equal : cur :: rest = List.replicate (rest.length + 1) cur :=
          List.eq_replicate_iff.mpr
            ⟨rfl, fun other member => same other member cur List.mem_cons_self⟩
        rw [equal] at filtered ⊢
        rw [List.perm_replicate.mp filtered.symm]
  rw [mergedRow, mergedRow, last]

/-- **The merge does not depend on the order of the rows** when the rows with an id have
distinct names and one row at most is keyed by each of these names. -/
theorem merged_perm {rows rows' : List (OpOverlay H)}
    (distinct : (rows.filter (·.IdKeyed)).Pairwise fun row other => ¬SameName text row other)
    (one : ∀ row ∈ rows, row.IdKeyed → ∀ cur ∈ rows, ∀ cur' ∈ rows, ¬cur.IdKeyed →
      ¬cur'.IdKeyed → SameName text row cur → SameName text row cur' → cur = cur')
    (perm : rows.Perm rows') : (merged text rows).Perm (merged text rows') := by
  have distinct' : (rows'.filter (·.IdKeyed)).Pairwise fun row other => ¬SameName text row other :=
    ((perm.filter _).pairwise_iff fun apart same => apart same.symm).mp distinct
  rw [merged_eq_map distinct, merged_eq_map distinct']
  have described : ∀ row ∈ rows.filter (·.IdKeyed),
      mergedRow text [] row (rows.filter fun row => ¬row.IdKeyed) =
        mergedRow text [] row (rows'.filter fun row => ¬row.IdKeyed) := by
    intro row member
    rw [List.mem_filter, decide_eq_true_eq] at member
    refine mergedRow_perm ?_ (perm.filter _)
    intro cur inNamed cur' inNamed'
    rw [List.mem_filter, decide_eq_true_eq] at inNamed inNamed'
    exact one row member.1 member.2 cur inNamed.1 cur' inNamed'.1 inNamed.2 inNamed'.2
  rw [List.map_congr_left described]
  exact (perm.filter _).map _

end Order

/-! ## What the merge does -/

/-- **The merge keeps the rows with an id and moves to the first of each name the
descriptions of the last row keyed by it. When the strings are distinct, each is
held once or freed once, and never touched after.** -/
theorem mergeCuratedIntoGenerated_spec [DecidableEq H] (text : H → CStr)
    (rows : List (OpOverlay H)) :
    let result := mergeCuratedIntoGenerated text rows
    (result.val.map (fun row => (row.cmdId, row.name)) =
        (rows.filter (·.IdKeyed)).map fun row => (row.cmdId, row.name)) ∧
      (∀ before row after, rows.filter (·.IdKeyed) = before ++ row :: after →
        result.val[before.length]? =
          some (mergedRow text before row (rows.filter fun row => ¬row.IdKeyed))) ∧
      ((strings rows).Nodup → Safe result.log ∧ (freed result.log).Nodup ∧
        ∀ h ∈ strings rows, (strings result.val).count h + (freed result.log).count h = 1) := by
  obtain ⟨result, owns⟩ := mergeCuratedIntoGenerated_merged text rows
  simp only [result]
  exact ⟨merged_keys text rows, fun _ _ _ split => merged_get text split, fun distinct =>
    ⟨owns.safe distinct, owns.freed_nodup distinct,
      fun _ member => owns.count_add_count distinct member⟩⟩

/-- A row keyed by a name before and one after the row it describes: the first pair
of descriptions is freed, the second one stays. -/
theorem mergeCuratedIntoGenerated_interleaved :
    let rows : List (OpOverlay Nat) :=
      [⟨0, some 1, some 2, none⟩, ⟨7, some 3, none, none⟩, ⟨0, some 4, some 5, some 6⟩]
    let result := mergeCuratedIntoGenerated (fun _ => lit "GET") rows
    result.val[0]? = some ⟨7, some 3, some 5, some 6⟩ ∧ Safe result.log := by
  have spec := mergeCuratedIntoGenerated_spec (fun _ : Nat => lit "GET")
    [⟨0, some 1, some 2, none⟩, ⟨7, some 3, none, none⟩, ⟨0, some 4, some 5, some 6⟩]
  refine ⟨(spec.2.1 [] ⟨7, some 3, none, none⟩ [] (by decide)).trans ?_, (spec.2.2 (by decide)).1⟩
  decide

end Ykern.Overlay
