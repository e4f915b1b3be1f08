import Mathlib.Data.List.Basic

/-!
# Outlines

An outline is an ordered forest of labels. It is written as rows, one for each label, in the
order in which a reader meets them, and each row is as deep as its label. A row is written as a
line that is indented by its depth.

Nothing is lost on the way: the rows of an outline are read back (`read_rows`), and so are the
lines, when no label has a line break in it or starts with the indentation (`readText_text`). So
outlines with the same text are the same.
-/

set_option autoImplicit false

namespace Ykern

/-- An ordered forest of labels: the first label with what is below it, and the others. -/
inductive Outline (β : Type) where
  | nil
  | node (label : β) (below others : Outline β)
  deriving DecidableEq

namespace Outline

variable {β : Type}

/-- The labels of an outline. -/
def labels : Outline β → List β
  | nil => []
  | node label below others => label :: (below.labels ++ others.labels)

/-- Labels without anything below them, in front of an outline. -/
def flat (front : List β) (others : Outline β) : Outline β :=
  front.foldr (fun label others => node label nil others) others

@[simp] theorem labels_flat (front : List β) (others : Outline β) :
    (flat front others).labels = front ++ others.labels := by
  induction front with
  | nil => rfl
  | cons label front ih =>
      show label :: ([] ++ (flat front others).labels) = _
      rw [ih]
      rfl

/-! ## Rows -/

/-- The rows of an outline, whose first labels are as deep as this. -/
def rows (depth : Nat) : Outline β → List (Nat × β)
  | nil => []
  | node label below others => (depth, label) :: (below.rows (depth + 1) ++ others.rows depth)

/-- Every row is as deep as the first labels or deeper. -/
theorem le_of_mem_rows {o : Outline β} {depth : Nat} {row : Nat × β} (member : row ∈ o.rows depth) :
    depth ≤ row.1 := by
  induction o generalizing depth with
  | nil => cases member
  | node label below others ihBelow ihOthers =>
      rcases List.mem_cons.mp member with rfl | member
      · exact Nat.le_refl depth
      rcases List.mem_append.mp member with inner | outer
      · exact Nat.le_of_succ_le (ihBelow inner)
      · exact ihOthers outer

/-- The labels of the rows. -/
theorem map_snd_rows (o : Outline β) (depth : Nat) : (o.rows depth).map Prod.snd = o.labels := by
  induction o generalizing depth with
  | nil => rfl
  | node label below others ihBelow ihOthers =>
      rw [rows, labels, List.map_cons, List.map_append, ihBelow, ihOthers]

/-- Read rows, the first of which is as deep as this: the rows behind it that are deeper are
those below it. -/
def read (depth : Nat) (rs : List (Nat × β)) : Option (Outline β) :=
  match rs with
  | [] => some nil
  | (d, label) :: rest =>
      if d = depth then do
        let below ← read (depth + 1) (rest.takeWhile fun row => depth < row.1)
        let others ← read depth (rest.dropWhile fun row => depth < row.1)
        some (node label below others)
      else none
termination_by rs.length
decreasing_by
  · exact Nat.lt_succ_of_le (List.takeWhile_sublist _).length_le
  · exact Nat.lt_succ_of_le (List.dropWhile_sublist _).length_le

/-- The rows below a label end where one that is not deeper follows. -/
theorem takeWhile_rows (depth : Nat) (below others : Outline β) :
    (below.rows (depth + 1) ++ others.rows depth).takeWhile (fun row => depth < row.1) =
        below.rows (depth + 1) ∧
      (below.rows (depth + 1) ++ others.rows depth).dropWhile (fun row => depth < row.1) =
        others.rows depth := by
  have deeper : ∀ row ∈ below.rows (depth + 1), decide (depth < row.1) = true := by
    intro row member
    exact decide_eq_true (le_of_mem_rows member)
  rw [List.takeWhile_append_of_pos deeper, List.dropWhile_append_of_pos deeper]
  cases others with
  | nil => exact ⟨List.append_nil _, rfl⟩
  | node label below' others =>
      have stops : ¬depth < depth := Nat.lt_irrefl depth
      simp only [rows, List.takeWhile_cons, List.dropWhile_cons, decide_eq_true_eq, if_neg stops,
        List.append_nil, and_self]

/-- **The rows of an outline are read back.** -/
theorem read_rows (o : Outline β) (depth : Nat) : read depth (o.rows depth) = some o := by
  induction o generalizing depth with
  | nil => rw [rows, read]
  | node label below others ihBelow ihOthers =>
      obtain ⟨inner, outer⟩ := takeWhile_rows depth below others
      rw [rows, read, if_pos rfl, inner, outer, ihBelow, ihOthers]
      rfl

/-! ## Lines -/

section Text

variable {α : Type} (unit : List α) (newline : α)

/-- A row as a line, with an indentation for every level. -/
def line (row : Nat × List α) : List α :=
  (List.replicate row.1 unit).flatten ++ row.2 ++ [newline]

/-- The text of an outline. -/
def text (depth : Nat) (o : Outline (List α)) : List α := (o.rows depth).flatMap (line unit newline)

@[simp] theorem text_nil (depth : Nat) : (nil : Outline (List α)).text unit newline depth = [] := rfl

@[simp] theorem text_node (depth : Nat) (label : List α) (below others : Outline (List α)) :
    (node label below others).text unit newline depth =
      line unit newline (depth, label) ++ (below.text unit newline (depth + 1) ++
        others.text unit newline depth) := by
  rw [text, rows, List.flatMap_cons, List.flatMap_append]
  rfl

theorem text_flat (depth : Nat) (front : List (List α)) (others : Outline (List α)) :
    (flat front others).text unit newline depth =
      front.flatMap (fun label => line unit newline (depth, label)) ++
        others.text unit newline depth := by
  induction front with
  | nil => rfl
  | cons label front ih =>
      show (node label nil (flat front others)).text unit newline depth = _
      rw [text_node, text_nil, List.nil_append, ih, List.flatMap_cons, List.append_assoc]

variable [DecidableEq α]

/-- The depth of a line, and its label: indentations are taken off the front. -/
def readLine (l : List α) : Nat × List α :=
  if unit ≠ [] ∧ unit <+: l then
    let rest := readLine (l.drop unit.length)
    (rest.1 + 1, rest.2)
  else (0, l)
termination_by l.length
decreasing_by
  rename_i indented
  have some := List.length_pos_iff.mpr indented.1
  have fits := indented.2.length_le
  rw [List.length_drop]
  omega

/-- Read a text: its lines, and the outline of their rows. -/
def readText (depth : Nat) (bs : List α) : Option (Outline (List α)) :=
  read depth (((bs.splitOn newline).dropLast).map (readLine unit))

/-- A label that a line can be read back from. -/
def Plain (label : List α) : Prop := newline ∉ label ∧ ¬unit <+: label

variable {unit newline}

theorem readLine_indented (nonempty : unit ≠ []) {label : List α} (plain : ¬unit <+: label)
    (depth : Nat) : readLine unit ((List.replicate depth unit).flatten ++ label) = (depth, label) := by
  induction depth with
  | zero =>
      rw [List.replicate_zero, List.flatten_nil, List.nil_append, readLine,
        if_neg fun indented => plain indented.2]
  | succ depth ih =>
      rw [List.replicate_succ, List.flatten_cons, List.append_assoc, readLine,
        if_pos ⟨nonempty, List.prefix_append _ _⟩, List.drop_left, ih]

omit [DecidableEq α] in
theorem newline_notMem_indented (inline : newline ∉ unit) {label : List α} (plain : newline ∉ label)
    (depth : Nat) : newline ∉ (List.replicate depth unit).flatten ++ label := by
  intro member
  rcases List.mem_append.mp member with indentation | own
  · obtain ⟨u, isUnit, member⟩ := List.mem_flatten.mp indentation
    rw [List.eq_of_mem_replicate isUnit] at member
    exact inline member
  · exact plain own

/-- The lines of rows are split. -/
theorem splitOn_lines (inline : newline ∉ unit) {rs : List (Nat × List α)}
    (plain : ∀ row ∈ rs, newline ∉ row.2) :
    (rs.flatMap (line unit newline)).splitOn newline =
      rs.map (fun row => (List.replicate row.1 unit).flatten ++ row.2) ++ [[]] := by
  induction rs with
  | nil => exact List.splitOn_nil newline
  | cons row rs ih =>
      have split : (line unit newline row ++ rs.flatMap (line unit newline)) =
          ((List.replicate row.1 unit).flatten ++ row.2) ++
            newline :: rs.flatMap (line unit newline) := by
        rw [line, List.append_assoc, List.singleton_append]
      rw [List.flatMap_cons, split, List.splitOn_append_cons_self_of_not_mem
        (newline_notMem_indented inline (plain row List.mem_cons_self) row.1),
        ih fun other member => plain other (List.mem_cons_of_mem _ member)]
      rfl

/-- **The text of an outline is read back**, when its labels are plain. -/
theorem readText_text (nonempty : unit ≠ []) (inline : newline ∉ unit) {o : Outline (List α)}
    (plain : ∀ label ∈ o.labels, Plain unit newline label) (depth : Nat) :
    readText unit newline depth (o.text unit newline depth) = some o := by
  have plainRow : ∀ row ∈ o.rows depth, Plain unit newline row.2 := by
    intro row member
    refine plain row.2 ?_
    rw [← map_snd_rows o depth]
    exact List.mem_map_of_mem member
  have lines : (o.rows depth).map (fun row =>
      readLine unit ((List.replicate row.1 unit).flatten ++ row.2)) = o.rows depth := by
    refine (List.map_congr_left fun row member => ?_).trans (List.map_id _)
    exact readLine_indented nonempty (plainRow row member).2 row.1
  rw [readText, text, splitOn_lines inline fun row member => (plainRow row member).1,
    List.dropLast_concat, List.map_map]
  show read depth ((o.rows depth).map fun row =>
    readLine unit ((List.replicate row.1 unit).flatten ++ row.2)) = some o
  rw [lines, read_rows]

end Text

end Outline

end Ykern
