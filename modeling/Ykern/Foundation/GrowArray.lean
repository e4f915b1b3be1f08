import Ykern.Foundation.Bytes

/-!
# Arrays that grow by doubling a remembered capacity

An array is extended one item at a time. The writer remembers a capacity: when
the number of items equals it, the array is reallocated with twice the slots (or
an initial number), and the item is written after the last one. What is allocated
is the size last given to the reallocation; the remembered capacity is only a
number the writer keeps, and may be wrong.

A capacity between the number of items and the number of slots stays there, and
every write is then in bounds (`pushAll_inStep`). A capacity below the number of
items never triggers a reallocation again, so writing goes on in the slots that
are there, and is in bounds exactly when they suffice (`pushAll_stale`). An array
filled from nothing has its initial number of slots doubled until they suffice
(`grownSlots`). An array filled in several rounds, each of which starts from a
capacity of 0, is therefore written in bounds exactly when all items fit the
slots of the first round that writes (`pushRounds_inBounds_iff`).
-/

set_option autoImplicit false

namespace Ykern

/-- A growable array: its items, and the number of slots last allocated for it. -/
structure GrowArray (α : Type) where
  items : List α
  slots : Nat

/-- An access to an array: a reallocation, with the number of items and the new
number of slots, or a write of an item, with its index and the number of slots. -/
inductive ArrayStep where
  | realloc (count slots : Nat)
  | write (index slots : Nat)

/-- A reallocation keeps room for the items, a write is below the slots. After a
write the number of items is its index plus one, so it is at most the slots. -/
def ArrayStep.InBounds : ArrayStep → Prop
  | .realloc count slots => count ≤ slots
  | .write index slots => index < slots

@[simp] theorem ArrayStep.inBounds_realloc (count slots : Nat) :
    (ArrayStep.realloc count slots).InBounds ↔ count ≤ slots := Iff.rfl

@[simp] theorem ArrayStep.inBounds_write (index slots : Nat) :
    (ArrayStep.write index slots).InBounds ↔ index < slots := Iff.rfl

instance (step : ArrayStep) : Decidable step.InBounds :=
  match step with
  | .realloc _ _ => inferInstanceAs (Decidable (_ ≤ _))
  | .write _ _ => inferInstanceAs (Decidable (_ < _))

namespace GrowArray

variable {α : Type}

/-- The array before anything is written to it. -/
def empty : GrowArray α := ⟨[], 0⟩

/-- The number of items. -/
def count (a : GrowArray α) : Nat := a.items.length

/-- What writing leaves: the array, the capacity the writer remembers, and the
accesses it performed. -/
structure Pushed (α : Type) where
  array : GrowArray α
  capacity : Nat
  steps : List ArrayStep

/-- The number of slots asked for when the remembered capacity is reached. -/
def newCapacity (initial capacity : Nat) : Nat := if capacity = 0 then initial else capacity * 2

/-- Write one item, reallocating when the number of items equals the capacity. -/
def push (initial : Nat) (a : GrowArray α) (capacity : Nat) (item : α) : Pushed α :=
  if a.count = capacity then
    { array := ⟨a.items ++ [item], newCapacity initial capacity⟩
      capacity := newCapacity initial capacity
      steps := [.realloc a.count (newCapacity initial capacity),
        .write a.count (newCapacity initial capacity)] }
  else
    { array := ⟨a.items ++ [item], a.slots⟩
      capacity := capacity
      steps := [.write a.count a.slots] }

/-- Write a list of items. -/
def pushAll (initial : Nat) (a : GrowArray α) (capacity : Nat) : List α → Pushed α
  | [] => ⟨a, capacity, []⟩
  | item :: rest =>
      let first := push initial a capacity item
      let others := pushAll initial first.array first.capacity rest
      ⟨others.array, others.capacity, first.steps ++ others.steps⟩

@[simp] theorem push_items (initial : Nat) (a : GrowArray α) (capacity : Nat) (item : α) :
    (push initial a capacity item).array.items = a.items ++ [item] := by
  unfold push
  split <;> rfl

@[simp] theorem push_count (initial : Nat) (a : GrowArray α) (capacity : Nat) (item : α) :
    (push initial a capacity item).array.count = a.count + 1 := by
  simp [count]

theorem pushAll_items (initial : Nat) (a : GrowArray α) (capacity : Nat) (xs : List α) :
    (pushAll initial a capacity xs).array.items = a.items ++ xs := by
  induction xs generalizing a capacity with
  | nil => simp [pushAll]
  | cons item rest ih => simp [pushAll, ih]

/-- The array of the images of the items. -/
def map {β : Type} (f : α → β) (a : GrowArray α) : GrowArray β := ⟨a.items.map f, a.slots⟩

@[simp] theorem count_map {β : Type} (f : α → β) (a : GrowArray α) :
    (a.map f).count = a.count := by
  simp [count, map]

@[simp] theorem slots_map {β : Type} (f : α → β) (a : GrowArray α) :
    (a.map f).slots = a.slots := rfl

/-- What a write does to the slots does not depend on the items. -/
theorem push_map {β : Type} (f : α → β) (initial : Nat) (a : GrowArray α) (capacity : Nat)
    (item : α) :
    push initial (a.map f) capacity (f item) =
      ⟨(push initial a capacity item).array.map f, (push initial a capacity item).capacity,
        (push initial a capacity item).steps⟩ := by
  unfold push
  by_cases full : a.count = capacity
  · simp only [count_map, if_pos full]
    simp [map]
  · simp only [count_map, if_neg full]
    simp [map]

theorem pushAll_append (initial : Nat) (a : GrowArray α) (capacity : Nat) (xs ys : List α) :
    pushAll initial a capacity (xs ++ ys) =
      let first := pushAll initial a capacity xs
      let others := pushAll initial first.array first.capacity ys
      ⟨others.array, others.capacity, first.steps ++ others.steps⟩ := by
  induction xs generalizing a capacity with
  | nil => rfl
  | cons item rest ih => simp only [List.cons_append, pushAll, ih, List.append_assoc]

/-! ## A capacity that is right -/

/-- The remembered capacity lies between the number of items and that of slots. -/
def InStep (a : GrowArray α) (capacity : Nat) : Prop := a.count ≤ capacity ∧ capacity ≤ a.slots

theorem inStep_empty : InStep (empty : GrowArray α) 0 := ⟨le_refl _, le_refl _⟩

/-- The number of items is itself a right capacity when the slots hold them. -/
theorem inStep_count {a : GrowArray α} (held : a.count ≤ a.slots) : InStep a a.count :=
  ⟨le_refl _, held⟩

theorem InStep.count_le_slots {a : GrowArray α} {capacity : Nat} (inStep : InStep a capacity) :
    a.count ≤ a.slots :=
  inStep.1.trans inStep.2

theorem lt_newCapacity {initial : Nat} (pos : 0 < initial) (capacity : Nat) :
    capacity < newCapacity initial capacity := by
  unfold newCapacity
  split <;> omega

/-- One write with a right capacity is in bounds and leaves a right capacity. -/
theorem push_inStep {initial : Nat} (pos : 0 < initial) {a : GrowArray α} {capacity : Nat}
    (inStep : InStep a capacity) (item : α) :
    (∀ step ∈ (push initial a capacity item).steps, step.InBounds) ∧
      InStep (push initial a capacity item).array (push initial a capacity item).capacity := by
  obtain ⟨counted, allocated⟩ := inStep
  have grows := lt_newCapacity pos capacity
  by_cases full : a.count = capacity
  · rw [push, if_pos full]
    refine ⟨?_, ?_, le_refl _⟩
    · intro step member
      simp only [List.mem_cons, List.not_mem_nil, or_false] at member
      rcases member with rfl | rfl
      · show a.count ≤ _
        omega
      · show a.count < _
        omega
    · simp only [count, List.length_append, List.length_singleton] at full ⊢
      omega
  · rw [push, if_neg full]
    refine ⟨?_, ?_, allocated⟩
    · intro step member
      simp only [List.mem_cons, List.not_mem_nil, or_false] at member
      subst member
      show a.count < a.slots
      omega
    · simp only [count, List.length_append, List.length_singleton] at full counted ⊢
      omega

/-- **Writing with a right capacity stays in bounds.** -/
theorem pushAll_inStep {initial : Nat} (pos : 0 < initial) {a : GrowArray α} {capacity : Nat}
    (inStep : InStep a capacity) (xs : List α) :
    (∀ step ∈ (pushAll initial a capacity xs).steps, step.InBounds) ∧
      InStep (pushAll initial a capacity xs).array (pushAll initial a capacity xs).capacity := by
  induction xs generalizing a capacity with
  | nil => exact ⟨by simp [pushAll], inStep⟩
  | cons item rest ih =>
      obtain ⟨bounds, next⟩ := push_inStep pos inStep item
      obtain ⟨boundsRest, last⟩ := ih next
      refine ⟨?_, last⟩
      intro step member
      rcases List.mem_append.mp member with here | later
      · exact bounds step here
      · exact boundsRest step later

/-! ## A capacity below the number of items -/

/-- With a capacity below the number of items nothing is reallocated. -/
theorem push_stale (initial : Nat) {a : GrowArray α} {capacity : Nat}
    (stale : capacity < a.count) (item : α) :
    push initial a capacity item =
      ⟨⟨a.items ++ [item], a.slots⟩, capacity, [.write a.count a.slots]⟩ := by
  rw [push, if_neg (by omega)]

/-- **With a capacity below the number of items, writing is in bounds exactly
when the slots already allocated suffice**, and none is added. -/
theorem pushAll_stale (initial : Nat) {a : GrowArray α} {capacity : Nat}
    (stale : capacity < a.count) (xs : List α) :
    (pushAll initial a capacity xs).array = ⟨a.items ++ xs, a.slots⟩ ∧
      (pushAll initial a capacity xs).capacity = capacity ∧
      ((∀ step ∈ (pushAll initial a capacity xs).steps, step.InBounds) ↔
        xs = [] ∨ a.count + xs.length ≤ a.slots) := by
  induction xs generalizing a with
  | nil => simp [pushAll]
  | cons item rest ih =>
      have stale' : capacity < (⟨a.items ++ [item], a.slots⟩ : GrowArray α).count := by
        simp only [count, List.length_append, List.length_singleton] at stale ⊢
        omega
      obtain ⟨array, remembered, bounds⟩ := ih stale'
      simp only [pushAll, push_stale initial stale]
      refine ⟨by rw [array]; simp, remembered, ?_⟩
      simp only [List.cons_append, List.nil_append, List.mem_cons, forall_eq_or_imp, bounds,
        ArrayStep.inBounds_write, reduceCtorEq, false_or, List.length_cons, count,
        List.length_append, List.length_nil]
      constructor
      · rintro ⟨here, rfl | later⟩
        · simpa using here
        · omega
      · intro room
        exact ⟨by omega, .inr (by omega)⟩

/-! ## Filling an array from nothing -/

/-- The slots of an array after writing so many items to it from nothing: the initial number,
doubled whenever the items fill them. -/
def grownSlots (initial : Nat) : Nat → Nat
  | 0 => 0
  | n + 1 =>
      if n = grownSlots initial n then newCapacity initial (grownSlots initial n)
      else grownSlots initial n

theorem le_grownSlots {initial : Nat} (pos : 0 < initial) (n : Nat) :
    n ≤ grownSlots initial n := by
  induction n with
  | zero => exact le_refl _
  | succ n ih =>
      have := lt_newCapacity pos (grownSlots initial n)
      rw [grownSlots]
      split <;> omega

theorem pushAll_tight {initial : Nat} {a : GrowArray α}
    (tight : a.slots = grownSlots initial a.count) (xs : List α) :
    (pushAll initial a a.slots xs).array.slots = grownSlots initial (a.count + xs.length) := by
  induction xs generalizing a with
  | nil => simpa [pushAll] using tight
  | cons item rest ih =>
      have next : (push initial a a.slots item).array.slots = grownSlots initial (a.count + 1) ∧
          (push initial a a.slots item).capacity = (push initial a a.slots item).array.slots := by
        rw [grownSlots, ← tight, push]
        split <;> exact ⟨rfl, rfl⟩
      simp only [pushAll, next.2]
      rw [ih (by rw [push_count]; exact next.1), push_count, List.length_cons]
      congr 1
      omega

/-- **An array filled from nothing has the grown number of slots.** -/
theorem pushAll_empty_slots (initial : Nat) (xs : List α) :
    (pushAll initial (empty : GrowArray α) 0 xs).array.slots = grownSlots initial xs.length := by
  have := @pushAll_tight α initial empty rfl xs
  simpa [empty, count] using this

/-! ## Several rounds -/

/-- Write several lists of items, each with a capacity that starts from 0. -/
def pushRounds (initial : Nat) (a : GrowArray α) : List (List α) → GrowArray α × List ArrayStep
  | [] => (a, [])
  | round :: rounds =>
      let first := pushAll initial a 0 round
      let others := pushRounds initial first.array rounds
      (others.1, first.steps ++ others.2)

/-- The number of items of the first round that writes any. -/
def firstRound : List (List α) → Nat
  | [] => 0
  | round :: rounds => if round = [] then firstRound rounds else round.length

/-- Only the numbers of items of the rounds matter to it. -/
theorem firstRound_congr {rounds rounds' : List (List α)}
    (same : rounds.map List.length = rounds'.map List.length) :
    firstRound rounds = firstRound rounds' := by
  induction rounds generalizing rounds' with
  | nil =>
      obtain rfl := List.map_eq_nil_iff.mp same.symm
      rfl
  | cons round rounds ih =>
      obtain ⟨round', rounds', rfl, here, later⟩ := List.map_eq_cons_iff.mp same.symm
      have nothing : round = [] ↔ round' = [] := by
        rw [← List.length_eq_zero_iff, ← List.length_eq_zero_iff, here]
      rw [firstRound, firstRound, ih later.symm, here]
      simp only [nothing]

theorem pushRounds_items (initial : Nat) (a : GrowArray α) (rounds : List (List α)) :
    (pushRounds initial a rounds).1.items = a.items ++ rounds.flatten := by
  induction rounds generalizing a with
  | nil => simp [pushRounds]
  | cons round rounds ih => simp [pushRounds, ih, pushAll_items]

/-- Once an array has items, rounds are one round: the capacity stays 0. -/
theorem pushRounds_started (initial : Nat) {a : GrowArray α} (started : 0 < a.count)
    (rounds : List (List α)) :
    pushRounds initial a rounds =
      ((pushAll initial a 0 rounds.flatten).array, (pushAll initial a 0 rounds.flatten).steps) := by
  induction rounds generalizing a with
  | nil => rfl
  | cons round rounds ih =>
      obtain ⟨array, remembered, _⟩ := pushAll_stale initial started round
      have later : 0 < (pushAll initial a 0 round).array.count := by
        rw [array]
        simp only [count, List.length_append] at started ⊢
        omega
      simp only [pushRounds, ih later, List.flatten_cons, pushAll_append, remembered]

/-- **Rounds from nothing are in bounds exactly when all items fit the slots of
the first round that writes.** -/
theorem pushRounds_inBounds_iff {initial : Nat} (pos : 0 < initial) (rounds : List (List α)) :
    (∀ step ∈ (pushRounds initial (empty : GrowArray α) rounds).2, step.InBounds) ↔
      rounds.flatten.length ≤ grownSlots initial (firstRound rounds) := by
  induction rounds with
  | nil => simp [pushRounds]
  | cons round rounds ih =>
      by_cases skipped : round = []
      · subst skipped
        simpa [pushRounds, pushAll, firstRound] using ih
      · have first := (pushAll_inStep pos inStep_empty round).1
        have counted : (pushAll initial (empty : GrowArray α) 0 round).array.count =
            round.length := by
          simp [count, pushAll_items, empty]
        have started : 0 < (pushAll initial (empty : GrowArray α) 0 round).array.count := by
          rw [counted]
          exact List.length_pos_iff.mpr skipped
        have held := le_grownSlots pos round.length
        obtain ⟨_, _, later⟩ := pushAll_stale initial started rounds.flatten
        rw [pushRounds, pushRounds_started initial started, List.forall_mem_append, later,
          counted, pushAll_empty_slots, firstRound, if_neg skipped, List.flatten_cons,
          List.length_append]
        constructor
        · rintro ⟨_, nothing | fits⟩
          · simpa [nothing] using held
          · exact fits
        · exact fun fits => ⟨first, .inr fits⟩

/-- The slots after rounds from nothing are those of the first round that writes. -/
theorem pushRounds_slots (initial : Nat) (rounds : List (List α)) :
    (pushRounds initial (empty : GrowArray α) rounds).1.slots =
      grownSlots initial (firstRound rounds) := by
  induction rounds with
  | nil => rfl
  | cons round rounds ih =>
      by_cases skipped : round = []
      · subst skipped
        simpa [pushRounds, pushAll, firstRound] using ih
      · have started : 0 < (pushAll initial (empty : GrowArray α) 0 round).array.count := by
          simpa [count, pushAll_items, empty] using List.length_pos_iff.mpr skipped
        obtain ⟨array, _⟩ := pushAll_stale initial started rounds.flatten
        rw [pushRounds, pushRounds_started initial started, array, pushAll_empty_slots, firstRound,
          if_neg skipped]

/-! ## Doubling up to a target -/

/-- A capacity, doubled modulo a range while it is below a target. -/
def doubleUntil (range target : Nat) : Nat → Nat → Option Nat
  | 0, _ => none
  | steps + 1, capacity =>
      if capacity < target then doubleUntil range target steps (capacity * 2 % range)
      else some capacity

/-- **Doubling ends at a capacity that reaches the target**, when the range holds
twice the target. -/
theorem doubleUntil_spec {range target : Nat} (room : 2 * target ≤ range) (doublings : Nat)
    {steps capacity : Nat} (reach : target ≤ capacity * 2 ^ doublings)
    (enough : doublings < steps) :
    ∃ grown, doubleUntil range target steps capacity = some grown ∧ target ≤ grown ∧
      (capacity < range → grown < range) := by
  induction doublings generalizing steps capacity with
  | zero =>
      obtain ⟨steps, rfl⟩ := Nat.exists_eq_succ_of_ne_zero (Nat.ne_of_gt enough)
      have reached : ¬capacity < target := by simpa using reach
      exact ⟨capacity, by rw [doubleUntil, if_neg reached], Nat.le_of_not_lt reached, id⟩
  | succ doublings ih =>
      obtain ⟨steps, rfl⟩ := Nat.exists_eq_succ_of_ne_zero (Nat.ne_zero_of_lt enough)
      by_cases below : capacity < target
      · have unwrapped : capacity * 2 % range = capacity * 2 := Nat.mod_eq_of_lt (by omega)
        have closer : target ≤ capacity * 2 * 2 ^ doublings := by
          rwa [mul_assoc, ← pow_succ']
        obtain ⟨grown, ends, reached, ranged⟩ := ih closer (Nat.lt_of_succ_lt_succ enough)
        refine ⟨grown, by rw [doubleUntil, if_pos below, unwrapped, ends], reached, ?_⟩
        intro _
        exact ranged (by omega)
      · exact ⟨capacity, by rw [doubleUntil, if_neg below], Nat.le_of_not_lt below, id⟩

end GrowArray

end Ykern
