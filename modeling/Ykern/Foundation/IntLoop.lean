import Ykern.Foundation.Loops
import Ykern.Foundation.MemoryWalk

/-!
# Loops over records in `int` arithmetic

A program keeps the number of bytes that remain in an `int` of 32 bits. A value that is no
`int` is stored as another one (`storeInt`), so whether a loop over records computes what the
walk describes, and whether it ends, depends on the values that come up in it. The loop here
records them: what its body evaluates, and the number that remains before and after each
record it goes on from (`intLoop`).

A loop that starts with an `int` computes what the walk describes (`intLoop_spec`). It ends
within so many steps as bytes remain at first. Every number stored is an `int`, is lower than
the one before by at least a header, and is at least -3. A loop that is never left and whose
body evaluates good values only evaluates good values only (`intWalk_settles`).
-/

set_option autoImplicit false

namespace Ykern

/-! ## Values of type `int` -/

/-- The values of an `int` of 32 bits. -/
def IsInt (v : Int) : Prop := -2 ^ 31 ≤ v ∧ v < 2 ^ 31

instance (v : Int) : Decidable (IsInt v) := inferInstanceAs (Decidable (_ ∧ _))

/-- The `int` that a value is stored as. -/
def storeInt (v : Int) : Int := v.bmod (2 ^ 32)

theorem storeInt_eq {v : Int} (isInt : IsInt v) : storeInt v = v := by
  obtain ⟨low, high⟩ := isInt
  apply Int.bmod_eq_of_le_mul_two
  · push_cast
    omega
  · push_cast
    omega

/-! ## Computations that record values -/

/-- A computation ends, and the values it evaluates are good. -/
def Settles {ε : Type} (good : ε → Prop) (events : Option (List ε)) : Prop :=
  ∃ evaluated, events = some evaluated ∧ ∀ e ∈ evaluated, good e

namespace Settles

variable {ε : Type} {good : ε → Prop}

theorem nil : Settles good (some []) := ⟨[], rfl, nofun⟩

theorem one {e : ε} (holds : good e) : Settles good (some [e]) := ⟨[e], rfl, by simpa⟩

/-- Values evaluated before a computation. -/
theorem after {events : Option (List ε)} {before : List ε} (first : ∀ e ∈ before, good e)
    (settles : Settles good events) : Settles good (do some (before ++ (← events))) := by
  obtain ⟨evaluated, rfl, holds⟩ := settles
  refine ⟨before ++ evaluated, rfl, ?_⟩
  intro e member
  rcases List.mem_append.mp member with here | later
  · exact first e here
  · exact holds e later

/-- One computation after another. -/
theorem andThen {first second : Option (List ε)} (settles : Settles good first)
    (settles' : Settles good second) : Settles good (do some ((← first) ++ (← second))) := by
  obtain ⟨before, rfl, holds⟩ := settles
  exact settles'.after holds

end Settles

/-! ## Items reached -/

/-- The items up to the first at which a loop is left. -/
def reached {α : Type} (leaves : α → Bool) : List α → List α
  | [] => []
  | x :: xs => x :: if leaves x then [] else reached leaves xs

theorem reached_sublist {α : Type} (leaves : α → Bool) (xs : List α) :
    (reached leaves xs).Sublist xs := by
  induction xs with
  | nil => exact .slnil
  | cons x xs ih =>
      rw [reached]
      split
      · exact (List.nil_sublist xs).cons_cons x
      · exact ih.cons_cons x

/-- A loop that is never left reaches all items. -/
theorem reached_never {α : Type} (xs : List α) : reached (fun _ => false) xs = xs := by
  induction xs with
  | nil => rfl
  | cons x xs ih => rw [reached, if_neg Bool.false_ne_true, ih]

namespace Framing

variable (F : Framing) (mem : Mem) {σ ρ ε : Type}

/-! ## The loop -/

/-- A loop over records with its body, and what it evaluates: `each` for the body, `advanced`
for the number that remains before and after a record. Nothing when the loop does not end
within so many steps, or its body does not end. -/
def intLoop (advanced : Int → Int → ε) (each : Nat → Option (List ε))
    (body : σ → Nat → Control σ ρ) : Nat → σ → Nat → Int → Option (List ε × Ended σ ρ)
  | 0, _, _, _ => none
  | steps + 1, s, p, rem =>
      -- `NLMSG_OK` compares the length with `rem` only when `rem` is positive, so that the
      -- conversion of `rem` keeps it, and rounding up a length that is at most `rem` is exact.
      if F.Ok mem p rem then do
        let here ← each p
        match body s p with
        | .next s => do
            let left := rem - align4 (F.declaredAt mem p)
            let (later, ended) ← intLoop advanced each body steps s
              (p + align4 (F.declaredAt mem p)) (storeInt left)
            some (here ++ advanced rem left :: later, ended)
        | .stop s => some (here, .stopped s)
        | .done r => some (here, .done r)
      else some ([], .ran s)

variable {F mem} {advanced : Int → Int → ε} {each : Nat → Option (List ε)}
  {body : σ → Nat → Control σ ρ}

/-- The number that remains after a record. -/
theorem Ok.left_bounds {p : Nat} {rem : Int} (ok : F.Ok mem p rem) :
    -3 ≤ rem - align4 (F.declaredAt mem p) ∧
      rem - align4 (F.declaredAt mem p) + F.header ≤ rem := by
  have rounded := le_align4 (F.declaredAt mem p)
  have close : align4 (F.declaredAt mem p) ≤ F.declaredAt mem p + 3 := by
    unfold align4
    omega
  obtain ⟨_, covers, within⟩ := ok
  omega

/-- A loop that is left at its first record evaluates what its body does. -/
theorem intLoop_left {steps p : Nat} {s : σ} {rem : Int} {here : List ε} (ok : F.Ok mem p rem)
    (evaluated : each p = some here) (leaves : ∀ s', body s p ≠ .next s') :
    (F.intLoop mem advanced each body (steps + 1) s p rem).map Prod.fst = some here := by
  rw [intLoop, if_pos ok, evaluated]
  cases turn : body s p with
  | next s' => exact absurd turn (leaves s')
  | stop s' => rfl
  | done r => rfl

/-- **A loop that starts with an `int` does what the walk describes**, and ends. What holds of
the numbers that remain holds of all values when it holds of those of the records reached. -/
theorem intLoop_spec {leaves : Nat → Bool}
    (leaves_iff : ∀ s a, leaves a = true ↔ ∀ s', body s a ≠ .next s')
    {steps : Nat} {s : σ} {p : Nat} {rem : Int} (enough : rem.toNat < steps) (isInt : IsInt rem)
    (ends : ∀ a ∈ reached leaves (F.walk mem p rem), ∃ here, each a = some here) :
    ∃ events, F.intLoop mem advanced each body steps s p rem =
        some (events, foldUntil body s (F.walk mem p rem)) ∧
      ∀ good : ε → Prop,
        (∀ before after : Int, -3 ≤ after → after + F.header ≤ before → before ≤ rem →
          good (advanced before after)) →
        ((∀ e ∈ events, good e) ↔
          ∀ a ∈ reached leaves (F.walk mem p rem), ∀ here, each a = some here →
            ∀ e ∈ here, good e) := by
  induction steps generalizing s p rem with
  | zero => exact absurd enough (Nat.not_lt_zero _)
  | succ steps ih =>
      rw [intLoop]
      by_cases ok : F.Ok mem p rem
      · rw [Framing.walk_of_ok ok, reached] at ends
        obtain ⟨here, evaluated⟩ := ends p List.mem_cons_self
        rw [if_pos ok, Framing.walk_of_ok ok, reached, evaluated, foldUntil]
        cases turn : body s p with
        | next s' =>
            have stays : leaves p = false := by
              rw [Bool.eq_false_iff]
              intro leaving
              exact (leaves_iff s p).mp leaving s' turn
            obtain ⟨least, lower⟩ := ok.left_bounds
            have left : IsInt (rem - align4 (F.declaredAt mem p)) := by
              obtain ⟨_, high⟩ := isInt
              constructor
              · omega
              · omega
            rw [stays, if_neg Bool.false_ne_true] at ends ⊢
            obtain ⟨later, rest, iff⟩ := @ih s' _ _
              (Nat.lt_of_lt_of_le ok.advance (Nat.le_of_lt_succ enough)) left
              fun a member => ends a (List.mem_cons_of_mem _ member)
            refine ⟨here ++ advanced rem (rem - align4 (F.declaredAt mem p)) :: later, ?_, ?_⟩
            · simp [storeInt_eq left, rest]
            · intro good moves
              have others := iff good fun before after low lowers within =>
                moves before after low lowers (by omega)
              have moved := moves rem _ least lower (le_refl _)
              simp only [List.mem_append, List.mem_cons, or_imp, forall_and, forall_eq, others,
                moved, true_and, evaluated, Option.some.injEq, forall_eq']
        | stop s' =>
            have leaving : leaves p = true := by
              rw [leaves_iff s p, turn]
              intro next same
              cases same
            refine ⟨here, rfl, ?_⟩
            intro good _
            simp [leaving, evaluated]
        | done r =>
            have leaving : leaves p = true := by
              rw [leaves_iff s p, turn]
              intro next same
              cases same
            refine ⟨here, rfl, ?_⟩
            intro good _
            simp [leaving, evaluated]
      · rw [if_neg ok, Framing.walk_of_not_ok ok]
        refine ⟨[], rfl, ?_⟩
        intro good _
        simp [reached]

/-! ## Walks -/

variable (F mem)

/-- A loop over records that is never left. -/
def intWalk (advanced : Int → Int → ε) (each : Nat → Option (List ε)) (steps p : Nat) (rem : Int) :
    Option (List ε) :=
  (F.intLoop mem advanced each (fun _ _ => (.next () : Control Unit Empty)) steps () p rem).map
    Prod.fst

variable {F mem}

/-- **A walk that starts with an `int` ends**, and evaluates good values if its body does and the
numbers that remain are good. -/
theorem intWalk_settles {good : ε → Prop} {steps p : Nat} {rem : Int} (enough : rem.toNat < steps)
    (isInt : IsInt rem)
    (moves : ∀ before after : Int, -3 ≤ after → after + F.header ≤ before → before ≤ rem →
      good (advanced before after))
    (settles : ∀ a ∈ F.walk mem p rem, Settles good (each a)) :
    Settles good (F.intWalk mem advanced each steps p rem) := by
  have never : ∀ (s : Unit) (a : Nat), false = true ↔
      ∀ s', (Control.next () : Control Unit Empty) ≠ .next s' := by
    intro s a
    simp
  have ends : ∀ a ∈ reached (fun _ => false) (F.walk mem p rem), ∃ here, each a = some here := by
    intro a member
    rw [reached_never] at member
    obtain ⟨here, evaluated, _⟩ := settles a member
    exact ⟨here, evaluated⟩
  obtain ⟨events, run, iff⟩ :=
    @intLoop_spec F mem Unit Empty ε advanced each _ _ never steps () p rem enough isInt ends
  refine ⟨events, by rw [intWalk, run]; rfl, (iff good moves).mpr ?_⟩
  intro a member here evaluated
  rw [reached_never] at member
  obtain ⟨here', evaluated', holds⟩ := settles a member
  obtain rfl := Option.some.inj (evaluated.symm.trans evaluated')
  exact holds

end Framing

end Ykern
