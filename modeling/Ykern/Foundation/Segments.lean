import Mathlib

/-!
# Segments

A path is its segments, a separator before each (`joined`). `strtok` skips separators and
returns what is before the next one, so from a path of segments that are neither empty nor
have the separator it returns the segments (`strtok_remaining`).

From any text it returns the maximal runs without a separator, in order (`segments_strtok`).
-/

set_option autoImplicit false

namespace Ykern

variable {α : Type}

/-- The segments, each behind a separator. -/
def joined (sep : α) (segs : List (List α)) : List α := segs.flatMap (sep :: ·)

variable {sep : α}

theorem joined_cons (seg : List α) (segs : List (List α)) :
    joined sep (seg :: segs) = sep :: (seg ++ joined sep segs) :=
  rfl

theorem length_joined (segs : List (List α)) :
    (joined sep segs).length = (segs.map fun seg => 1 + seg.length).sum := by
  induction segs with
  | nil => rfl
  | cons seg segs ih =>
      rw [joined_cons, List.length_cons, List.length_append, ih, List.map_cons, List.sum_cons]
      omega

variable [DecidableEq α]

/-- The next token, and what is left behind the separator that ends it. -/
def strtok (sep : α) (s : List α) : Option (List α × List α) :=
  match s.dropWhile (· == sep) with
  | [] => none
  | c :: cs => some ((c :: cs).takeWhile (· != sep), ((c :: cs).dropWhile (· != sep)).drop 1)

theorem strtok_sep (s : List α) : strtok sep (sep :: s) = strtok sep s := by
  simp [strtok]

/-- A token that is followed by further segments. -/
theorem strtok_append {seg : List α} (nonempty : seg ≠ []) (clean : sep ∉ seg)
    (segs : List (List α)) :
    strtok sep (seg ++ joined sep segs) = some (seg, (joined sep segs).drop 1) := by
  obtain ⟨c, cs, rfl⟩ := List.exists_cons_of_ne_nil nonempty
  have stops : (c :: cs ++ joined sep segs).dropWhile (· == sep) = c :: cs ++ joined sep segs := by
    apply List.dropWhile_cons_of_neg
    rw [beq_iff_eq]
    rintro rfl
    exact clean List.mem_cons_self
  have all : ∀ x ∈ c :: cs, (x != sep) = true := by
    intro x member
    rw [bne_iff_ne]
    rintro rfl
    exact clean member
  have taken : (joined sep segs).takeWhile (· != sep) = [] := by
    cases segs with
    | nil => rfl
    | cons seg segs => simp [joined_cons]
  have dropped : (joined sep segs).dropWhile (· != sep) = joined sep segs := by
    cases segs with
    | nil => rfl
    | cons seg segs => simp [joined_cons]
  rw [strtok, stops]
  show some ((c :: cs ++ joined sep segs).takeWhile _,
    ((c :: cs ++ joined sep segs).dropWhile _).drop 1) = _
  rw [List.takeWhile_append_of_pos all, List.dropWhile_append_of_pos all, taken, dropped,
    List.append_nil]

/-- What is left of a path when these segments are to come: the path of them, with or without
the first separator. -/
def Remaining (sep : α) (segs : List (List α)) (text : List α) : Prop :=
  text = joined sep segs ∨ text = (joined sep segs).drop 1

theorem strtok_remaining_nil {text : List α} (remaining : Remaining sep [] text) :
    strtok sep text = none := by
  rcases remaining with rfl | rfl <;> rfl

/-- **The next segment is the next token.** -/
theorem strtok_remaining {seg text : List α} {segs : List (List α)}
    (remaining : Remaining sep (seg :: segs) text) (nonempty : seg ≠ []) (clean : sep ∉ seg) :
    ∃ rest, strtok sep text = some (seg, rest) ∧ Remaining sep segs rest ∧
      rest.length < text.length := by
  have positive := List.length_pos_of_ne_nil nonempty
  refine ⟨(joined sep segs).drop 1, ?_, .inr rfl, ?_⟩
  · rcases remaining with rfl | rfl
    · rw [joined_cons, strtok_sep, strtok_append nonempty clean]
    · rw [joined_cons, List.drop_succ_cons, List.drop_zero, strtok_append nonempty clean]
  · rcases remaining with rfl | rfl
    · rw [joined_cons, List.length_cons, List.length_append, List.length_drop]
      omega
    · rw [joined_cons, List.drop_succ_cons, List.drop_zero, List.length_append,
        List.length_drop]
      omega

/-! ## Any text -/

/-- The maximal runs of a text that are not empty and have no separator. -/
def segments (sep : α) (s : List α) : List (List α) := (s.splitOn sep).filter fun run => run ≠ []

@[simp] theorem segments_nil : segments sep ([] : List α) = [] := by
  simp [segments]

/-- The segments on both sides of a separator. -/
theorem segments_append (s t : List α) :
    segments sep (s ++ sep :: t) = segments sep s ++ segments sep t := by
  rw [segments, List.splitOn_append_cons_self, List.filter_append]
  rfl

/-- A separator in front makes no difference. -/
theorem segments_sep (s : List α) : segments sep (sep :: s) = segments sep s := by
  have apart : segments sep ([] ++ sep :: s) = _ := segments_append [] s
  rwa [segments_nil, List.nil_append, List.nil_append] at apart

/-- A text without a separator is one segment. -/
theorem segments_eq_singleton {run : List α} (nonempty : run ≠ []) (clean : sep ∉ run) :
    segments sep run = [run] := by
  rw [segments, List.splitOn_eq_singleton clean]
  simp [nonempty]

theorem segments_dropWhile (s : List α) :
    segments sep (s.dropWhile (· == sep)) = segments sep s := by
  induction s with
  | nil => rfl
  | cons c s ih =>
      by_cases isSep : c = sep
      · rw [List.dropWhile_cons_of_pos (by simpa using isSep), ih, isSep, segments_sep]
      · rw [List.dropWhile_cons_of_neg (by simpa using isSep)]

/-- A run at the front is a segment when a separator or nothing follows. -/
theorem segments_run {run : List α} (nonempty : run ≠ []) (clean : sep ∉ run) {rest : List α}
    (ends : rest = [] ∨ ∃ more, rest = sep :: more) :
    segments sep (run ++ rest) = run :: segments sep (rest.drop 1) := by
  rcases ends with rfl | ⟨more, rfl⟩
  · rw [List.append_nil, segments_eq_singleton nonempty clean, List.drop_nil, segments_nil]
  · rw [segments_append, segments_eq_singleton nonempty clean, List.singleton_append,
      List.drop_succ_cons, List.drop_zero]

/-- **The tokens of a text are its segments.** -/
theorem segments_strtok (sep : α) (s : List α) :
    match strtok sep s with
    | none => segments sep s = []
    | some (seg, rest) => segments sep s = seg :: segments sep rest ∧ rest.length < s.length := by
  have shorter := List.length_dropWhile_le (· == sep) s
  rw [strtok]
  cases front : s.dropWhile (· == sep) with
  | nil =>
      show segments sep s = []
      rw [← segments_dropWhile, front, segments_nil]
  | cons c cs =>
      have notSep : ¬(c == sep) = true := by
        have head := List.head_dropWhile_not (· == sep) (front ▸ List.cons_ne_nil c cs)
        simpa [front] using head
      have split : c :: cs = (c :: cs).takeWhile (· != sep) ++ (c :: cs).dropWhile (· != sep) :=
        (List.takeWhile_append_dropWhile ..).symm
      have run : (c :: cs).takeWhile (· != sep) = c :: cs.takeWhile (· != sep) :=
        List.takeWhile_cons_of_pos (by simpa using notSep)
      have ends : (c :: cs).dropWhile (· != sep) = [] ∨
          ∃ more, (c :: cs).dropWhile (· != sep) = sep :: more := by
        cases behind : (c :: cs).dropWhile (· != sep) with
        | nil => exact .inl rfl
        | cons d more =>
            have head := List.head_dropWhile_not (· != sep) (behind ▸ List.cons_ne_nil d more)
            have isSep : d = sep := by simpa [behind] using head
            exact .inr ⟨more, by rw [isSep]⟩
      refine ⟨?_, ?_⟩
      · rw [← segments_dropWhile, front]
        conv_lhs => rw [split]
        refine segments_run (run ▸ List.cons_ne_nil _ _) ?_ ends
        intro member
        have other := List.mem_takeWhile_imp member
        simp at other
      · have lengths := congrArg List.length split
        rw [front, List.length_cons] at shorter
        rw [run, List.length_append, List.length_cons, List.length_cons] at lengths
        rw [List.length_drop]
        omega

end Ykern
