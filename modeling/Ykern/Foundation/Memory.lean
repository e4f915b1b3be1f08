import Ykern.Foundation.Bytes

/-!
# Memory and the windows of it

Memory assigns a byte to every address. A window is the byte sequence found at a
range of addresses; windows that lie next to each other concatenate
(`slice_add`), and a window of a window is a window (`drop_slice`,
`take_slice`). A byte sequence placed in memory is read back by the window it
occupies (`slice_place`).
-/

set_option autoImplicit false

namespace Ykern

/-- The contents of memory. -/
abbrev Mem := Nat → UInt8

namespace Mem

/-- The bytes at the addresses from `p` up to `p + n`. -/
def slice (mem : Mem) (p n : Nat) : Bytes := (List.range n).map fun i => mem (p + i)

variable (mem : Mem)

@[simp] theorem length_slice (p n : Nat) : (mem.slice p n).length = n := by
  simp [slice]

@[simp] theorem slice_zero (p : Nat) : mem.slice p 0 = [] := rfl

theorem getElem_slice (p n i : Nat) (within : i < (mem.slice p n).length) :
    (mem.slice p n)[i] = mem (p + i) := by
  simp [slice]

theorem getElem?_slice {p n i : Nat} (within : i < n) :
    (mem.slice p n)[i]? = some (mem (p + i)) := by
  rw [List.getElem?_eq_getElem (by simpa using within), getElem_slice]

theorem slice_succ (p n : Nat) : mem.slice p (n + 1) = mem p :: mem.slice (p + 1) n := by
  simp [slice, List.range_succ_eq_map, Nat.add_assoc, Nat.add_comm 1, Function.comp_def]

/-- Two windows side by side are one window. -/
theorem slice_add (p n m : Nat) : mem.slice p (n + m) = mem.slice p n ++ mem.slice (p + n) m := by
  induction n generalizing p with
  | zero => simp
  | succ n ih =>
      rw [Nat.succ_add, slice_succ, slice_succ, ih (p + 1), List.cons_append, Nat.add_assoc,
        Nat.add_comm 1 n]

theorem drop_slice {k n : Nat} (p : Nat) (within : k ≤ n) :
    (mem.slice p n).drop k = mem.slice (p + k) (n - k) := by
  obtain ⟨m, rfl⟩ := Nat.exists_eq_add_of_le within
  rw [slice_add, List.drop_left' (length_slice _ _ _), Nat.add_sub_cancel_left]

theorem take_slice {k n : Nat} (p : Nat) (within : k ≤ n) :
    (mem.slice p n).take k = mem.slice p k := by
  obtain ⟨m, rfl⟩ := Nat.exists_eq_add_of_le within
  rw [slice_add, List.take_left' (length_slice _ _ _)]

/-- Windows depend only on the bytes in them. -/
theorem slice_congr {mem mem' : Mem} {p n : Nat}
    (same : ∀ a, p ≤ a → a < p + n → mem a = mem' a) : mem.slice p n = mem'.slice p n := by
  apply List.map_congr_left
  intro i member
  exact same (p + i) (by omega) (by have := List.mem_range.mp member; omega)

/-- Equal windows are equal everywhere inside. -/
theorem slice_within {mem mem' : Mem} {p p' n off size : Nat} (same : mem.slice p n = mem'.slice p' n)
    (within : off + size ≤ n) : mem.slice (p + off) size = mem'.slice (p' + off) size := by
  obtain ⟨rest, rfl⟩ := Nat.exists_eq_add_of_le within
  rw [Nat.add_assoc, slice_add, slice_add mem' p', slice_add mem, slice_add mem'] at same
  obtain ⟨-, behind⟩ := List.append_inj same (by rw [length_slice, length_slice])
  exact (List.append_inj behind (by rw [length_slice, length_slice])).1

/-- Copy a byte sequence to the addresses from `p` on. -/
def place (bs : Bytes) (p : Nat) : Mem :=
  fun a => if a < p then mem a else (bs[a - p]?).getD (mem a)

theorem place_outside {bs : Bytes} {p a : Nat} (outside : a < p ∨ p + bs.length ≤ a) :
    mem.place bs p a = mem a := by
  unfold place
  split
  · rfl
  · rw [List.getElem?_eq_none (by omega), Option.getD_none]

/-- What was copied is read back. -/
theorem slice_place (bs : Bytes) (p : Nat) : (mem.place bs p).slice p bs.length = bs := by
  apply List.ext_getElem (by simp)
  intro i hi hi'
  rw [getElem_slice, place, if_neg (by omega), Nat.add_sub_cancel_left,
    List.getElem?_eq_getElem hi', Option.getD_some]

/-- Byte sequences copied side by side are one byte sequence. -/
theorem place_append (xs ys : Bytes) (p : Nat) :
    (mem.place xs p).place ys (p + xs.length) = mem.place (xs ++ ys) p := by
  funext a
  unfold place
  by_cases before : a < p
  · rw [if_pos (by omega), if_pos before, if_pos before]
  by_cases first : a < p + xs.length
  · rw [if_pos first, if_neg before, if_neg before, List.getElem?_append_left (by omega)]
  · rw [if_neg first, if_neg before, if_neg before, List.getElem?_append_right (by omega),
      List.getElem?_eq_none (l := xs) (by omega), Option.getD_none]
    congr 2
    omega

/-- Memory that is zero from an address on. -/
theorem slice_of_zero {mem : Mem} {p : Nat} (zero : ∀ a, p ≤ a → mem a = 0) (n : Nat) :
    mem.slice p n = List.replicate n 0 := by
  rw [List.eq_replicate_iff]
  refine ⟨length_slice mem p n, ?_⟩
  intro b member
  obtain ⟨i, _, rfl⟩ := List.mem_map.mp member
  exact zero _ (by omega)

/-- The 16-bit word at an address. -/
def load16 (p : Nat) : UInt16 := word16 (mem p) (mem (p + 1))

/-- The 32-bit word at an address. -/
def load32 (p : Nat) : UInt32 := word32 (mem p) (mem (p + 1)) (mem (p + 2)) (mem (p + 3))

end Mem

end Ykern
