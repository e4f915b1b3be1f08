import Ykern.Foundation.Bytes

/-!
# Computations with a trace

A traced computation has a value and the list of the events it performed, in
order. Events are the accesses to memory, the calls and the output of a program:
a property of everything a program does is then a property of every event of its
trace (`Traced.Every`), which holds of a sequence when it holds of its parts
(`Every.bind`).
-/

set_option autoImplicit false

namespace Ykern

/-- A value together with the events performed to compute it. -/
structure Traced (ε α : Type) where
  val : α
  log : List ε

namespace Traced

variable {ε α β : Type}

instance : Monad (Traced ε) where
  pure a := ⟨a, []⟩
  bind x f := ⟨(f x.val).val, x.log ++ (f x.val).log⟩

/-- Perform one event. -/
def emit (e : ε) : Traced ε Unit := ⟨(), [e]⟩

@[simp] theorem val_pure (a : α) : (pure a : Traced ε α).val = a := rfl

@[simp] theorem log_pure (a : α) : (pure a : Traced ε α).log = [] := rfl

@[simp] theorem val_bind (x : Traced ε α) (f : α → Traced ε β) :
    (x >>= f).val = (f x.val).val := rfl

@[simp] theorem log_bind (x : Traced ε α) (f : α → Traced ε β) :
    (x >>= f).log = x.log ++ (f x.val).log := rfl

@[simp] theorem log_emit (e : ε) : (emit e).log = [e] := rfl

/-- Only the value of the first computation decides how the second goes on. -/
theorem bind_of_val_eq {x : Traced ε α} {a : α} (value : x.val = a) (f : α → Traced ε β) :
    (x >>= f) = x >>= fun _ => f a := by
  subst value
  rfl

/-- Every event of the computation satisfies the property. -/
def Every (p : ε → Prop) (x : Traced ε α) : Prop := ∀ e ∈ x.log, p e

namespace Every

variable {p : ε → Prop}

theorem pure (a : α) : Every p (Pure.pure a : Traced ε α) := by
  simp [Every]

theorem emit {e : ε} (holds : p e) : Every p (Traced.emit e) := by
  simpa [Every] using holds

theorem bind {x : Traced ε α} {f : α → Traced ε β} (first : Every p x)
    (second : Every p (f x.val)) : Every p (x >>= f) := by
  intro e member
  rw [log_bind, List.mem_append] at member
  rcases member with member | member
  · exact first e member
  · exact second e member

end Every

end Traced

end Ykern
