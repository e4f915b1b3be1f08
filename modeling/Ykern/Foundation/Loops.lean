import Mathlib.Data.List.Basic

/-!
# Loops over lists

A loop over a list whose body may leave the loop or return is a fold with an early
exit (`foldUntil`). A field of the state of a fold depends only on the items that
touch it (`proj_foldl`), so the items may be in any order among items about other
fields, and a value that items replace is that of the last one (`foldl_last`).
Counting the items first and then filling an array of that length is mapping over
the list (`countAndFill_eq`).
-/

set_option autoImplicit false

namespace Ykern

variable {α β σ ρ : Type}

/-! ## Loops that stop early -/

/-- What the body of a loop does: go on, leave the loop, or return. -/
inductive Control (σ ρ : Type) where
  | next (s : σ)
  | stop (s : σ)
  | done (r : ρ)

/-- The end of a loop: it was run to its end or left (`stopped`), or returned. -/
inductive Ended (σ ρ : Type) where
  | ran (s : σ)
  | stopped (s : σ)
  | done (r : ρ)

/-- A loop over a list that may stop early. -/
def foldUntil (body : σ → α → Control σ ρ) (s : σ) : List α → Ended σ ρ
  | [] => .ran s
  | x :: xs =>
      match body s x with
      | .next s => foldUntil body s xs
      | .stop s => .stopped s
      | .done r => .done r

theorem foldUntil_map (f : α → β) (body : σ → β → Control σ ρ) (s : σ) (xs : List α) :
    foldUntil body s (xs.map f) = foldUntil (fun s x => body s (f x)) s xs := by
  induction xs generalizing s with
  | nil => rfl
  | cons x xs ih =>
      simp only [List.map_cons, foldUntil]
      split
      · exact ih _
      · rfl
      · rfl

theorem foldUntil_congr {body body' : σ → α → Control σ ρ} {s : σ} {xs : List α}
    (same : ∀ s, ∀ x ∈ xs, body s x = body' s x) :
    foldUntil body s xs = foldUntil body' s xs := by
  induction xs generalizing s with
  | nil => rfl
  | cons x xs ih =>
      simp only [foldUntil, same s x (by simp)]
      split
      · exact ih fun s y member => same s y (by simp [member])
      · rfl
      · rfl

theorem foldUntil_append (body : σ → α → Control σ ρ) (s : σ) (xs ys : List α) :
    foldUntil body s (xs ++ ys) =
      match foldUntil body s xs with
      | .ran s => foldUntil body s ys
      | .stopped s => .stopped s
      | .done r => .done r := by
  induction xs generalizing s with
  | nil => rfl
  | cons x xs ih =>
      simp only [List.cons_append, foldUntil]
      split
      · exact ih _
      · rfl
      · rfl

/-! ## Fields of folds -/

/-- A field of the state after a loop depends only on the items that touch it. -/
theorem proj_foldl {proj : σ → β} {step : σ → α → σ} {field : β → α → β} {about : α → Bool}
    (touches : ∀ s x, about x = true → proj (step s x) = field (proj s) x)
    (leaves : ∀ s x, about x = false → proj (step s x) = proj s) (s : σ) (xs : List α) :
    proj (xs.foldl step s) = (xs.filter about).foldl field (proj s) := by
  induction xs generalizing s with
  | nil => rfl
  | cons x xs ih =>
      rw [List.foldl_cons, ih, List.filter_cons]
      cases decided : about x with
      | true => rw [touches s x decided, if_pos rfl, List.foldl_cons]
      | false => rw [leaves s x decided, if_neg Bool.false_ne_true]

/-- A list in the state to which every item appends holds what all items append. -/
theorem proj_foldl_append (proj : σ → List β) {step : σ → α → σ} {items : α → List β}
    (appends : ∀ s x, proj (step s x) = proj s ++ items x) (s : σ) (xs : List α) :
    proj (xs.foldl step s) = proj s ++ xs.flatMap items := by
  induction xs generalizing s with
  | nil => simp
  | cons x xs ih => rw [List.foldl_cons, ih, appends, List.flatMap_cons, List.append_assoc]

/-- What no item touches stays as it is. -/
theorem proj_foldl_kept (proj : σ → β) {step : σ → α → σ}
    (keeps : ∀ s x, proj (step s x) = proj s) (s : σ) (xs : List α) :
    proj (xs.foldl step s) = proj s := by
  induction xs generalizing s with
  | nil => rfl
  | cons x xs ih => rw [List.foldl_cons, ih, keeps]

/-- A value that items may replace is in the end that of the last item with one. -/
theorem foldl_last (tells : α → Option β) (f : β → σ) (s : σ) (xs : List α) :
    xs.foldl (fun s x => (tells x).elim s f) s = (xs.filterMap tells).getLast?.elim s f := by
  induction xs generalizing s with
  | nil => rfl
  | cons x xs ih =>
      rw [List.foldl_cons, ih, List.filterMap_cons]
      cases tells x with
      | none => rfl
      | some value =>
          rw [List.getLast?_cons]
          cases (xs.filterMap tells).getLast? with
          | none => rfl
          | some later => rfl

/-! ## Filling arrays -/

/-- Set the next item of an array: its index, and the array. -/
def fillNext (fill : β → α → β) (s : Nat × List β) (x : α) : Nat × List β :=
  (s.1 + 1, s.2.modify s.1 fun item => fill item x)

theorem modify_length_append (f : β → β) (before : List β) (item : β) (after : List β) :
    (before ++ item :: after).modify before.length f = before ++ f item :: after := by
  induction before with
  | nil => rfl
  | cons first before ih => exact congrArg (first :: ·) ih

theorem foldl_fillNext (fill : β → α → β) (zero : β) (before : List β) (xs : List α) :
    (xs.foldl (fillNext fill) (before.length, before ++ List.replicate xs.length zero)).2 =
      before ++ xs.map (fill zero) := by
  induction xs generalizing before with
  | nil => simp
  | cons x xs ih =>
      have filled : fillNext fill (before.length, before ++ zero :: List.replicate xs.length zero) x =
          ((before ++ [fill zero x]).length, (before ++ [fill zero x]) ++
            List.replicate xs.length zero) := by
        rw [fillNext, modify_length_append]
        simp
      rw [List.foldl_cons, List.length_cons, List.replicate_succ, filled, ih]
      simp

/-- Count a list, and fill an array of that length in a second pass. -/
def countAndFill (fill : β → α → β) (zero : β) (xs : List α) : List β :=
  if xs.length = 0 then []
  else (xs.foldl (fillNext fill) (0, List.replicate xs.length zero)).2

theorem countAndFill_eq (fill : β → α → β) (zero : β) (xs : List α) :
    countAndFill fill zero xs = xs.map (fill zero) := by
  unfold countAndFill
  split
  · next none => rw [List.length_eq_zero_iff.mp none, List.map_nil]
  · exact foldl_fillNext fill zero [] xs

end Ykern
