import Mathlib.Data.List.Basic

/-!
# Reading in pieces

What is behind a descriptor is read in pieces: a call has as many bytes as are asked for or
fewer, none at the end, and it may be interrupted or fail. A loop that reads until it has
enough or nothing is left, and calls again when it was interrupted, has the bytes in front,
however the pieces are cut (`readLoop_eq`).
-/

set_option autoImplicit false

namespace Ykern

variable {α : Type}

/-- What happens at a call of `read`: it is interrupted, it fails, or it has some bytes, which are
at most one and so many more. -/
inductive Turn where
  | interrupted
  | failed (errno : Nat)
  | upTo (more : Nat)
  deriving DecidableEq

/-- What a call of `read` returns. -/
inductive Got (α : Type) where
  | interrupted
  | failed (errno : Nat)
  | bytes (piece : List α)

/-- A call that asks for this many of the bytes that are left. -/
def Turn.read (left : List α) (want : Nat) : Turn → Got α
  | .interrupted => .interrupted
  | .failed errno => .failed errno
  | .upTo more => .bytes (left.take (min want (more + 1)))

/-- Read until there is this much, or nothing is left. A call that is interrupted is made
again. -/
def readLoop (enough : Nat) (content : List α) (turns : Nat → Turn) :
    Nat → Nat → List α → Option (Except Nat (List α))
  | 0, _, _ => none
  | steps + 1, i, buf =>
      if buf.length < enough then
        match (turns i).read (content.drop buf.length) (enough - buf.length) with
        | .interrupted => readLoop enough content turns steps (i + 1) buf
        | .failed errno => some (.error errno)
        | .bytes [] => some (.ok buf)
        | .bytes piece => readLoop enough content turns steps (i + 1) (buf ++ piece)
      else some (.ok buf)

section ReadLoop

variable {enough bound : Nat} {content : List α} {turns : Nat → Turn}

/-- From the bytes that were read on, with enough steps for the interruptions and for one byte
at a time. -/
theorem readLoop_take (unfailing : ∀ i errno, turns i ≠ .failed errno)
    (finitely : ∀ i, bound ≤ i → turns i ≠ .interrupted) (steps i : Nat) {k : Nat}
    (within : k ≤ enough) (got : k ≤ content.length) (further : bound - i + (enough - k) < steps) :
    readLoop enough content turns steps i (content.take k) = some (.ok (content.take enough)) := by
  induction steps generalizing i k with
  | zero => exact absurd further (Nat.not_lt_zero _)
  | succ steps ih =>
      have length : (content.take k).length = k := List.length_take_of_le got
      rw [readLoop, length]
      by_cases more : k < enough
      · rw [if_pos more]
        cases turn : turns i with
        | interrupted =>
            have early : i < bound := by
              by_contra late
              exact finitely i (Nat.le_of_not_lt late) turn
            exact ih (i + 1) within got (by omega)
        | failed errno => exact absurd turn (unfailing i errno)
        | upTo n =>
            generalize size : min (enough - k) (n + 1) = m
            have positive : 0 < m := by omega
            rw [Turn.read, size]
            cases left : (content.drop k).take m with
            | nil =>
                -- At the end of the file.
                have ends : content.length ≤ k := by
                  rcases List.take_eq_nil_iff.mp left with none | gone
                  · omega
                  · exact List.drop_eq_nil_iff.mp gone
                rw [List.take_of_length_le ends, List.take_of_length_le (by omega)]
            | cons b piece =>
                have joined : content.take k ++ b :: piece =
                    content.take (min (k + m) content.length) := by
                  rw [← left, ← List.take_add, List.take_eq_take_min]
                have behind : k < content.length := by
                  by_contra ends
                  rw [List.drop_eq_nil_of_le (Nat.le_of_not_lt ends), List.take_nil] at left
                  cases left
                show readLoop enough content turns steps (i + 1) (content.take k ++ b :: piece) = _
                rw [joined]
                exact ih (i + 1) (by omega) (Nat.min_le_right _ _) (by omega)
      · have reached : k = enough := by omega
        rw [if_neg more, reached]

/-- **However the pieces are cut**, the loop ends with the bytes in front. -/
theorem readLoop_eq (unfailing : ∀ i errno, turns i ≠ .failed errno)
    (finitely : ∀ i, bound ≤ i → turns i ≠ .interrupted) {steps : Nat}
    (further : bound + enough < steps) :
    readLoop enough content turns steps 0 [] = some (.ok (content.take enough)) := by
  have start : readLoop enough content turns steps 0 (content.take 0) = _ :=
    readLoop_take unfailing finitely steps 0 (Nat.zero_le _) (Nat.zero_le _) (by omega)
  rwa [List.take_zero] at start

end ReadLoop

end Ykern
