import Mathlib

/-!
# Bytes, machine words and C strings

Memory and messages are sequences of bytes. A word of two, four or eight bytes
is stored least significant byte first, the host order of the machines the
program runs on. Reading a word back from the bytes it was stored as returns the
word (`word16_bytes16`, `word32_bytes32`).

A C string is the bytes before its terminating NUL, so copying a counted byte
sequence into a C string keeps the bytes before the first NUL (`cString`).
Numbers are printed in decimal and in hexadecimal with C's lower-case digits.
-/

set_option autoImplicit false

namespace Ykern

/-- A finite sequence of bytes. -/
abbrev Bytes := List UInt8

/-- A C string, without its terminating NUL. -/
abbrev CStr := List UInt8

/-- The bytes of a string literal of the source, which is encoded in UTF-8. -/
def lit (s : String) : Bytes := s.toByteArray.data.toList

/-! ## Words -/

/-- The 16-bit word whose bytes, low byte first, are given. -/
def word16 (b0 b1 : UInt8) : UInt16 := UInt16.ofNat (b0.toNat + 256 * b1.toNat)

/-- The 32-bit word whose bytes, low byte first, are given. -/
def word32 (b0 b1 b2 b3 : UInt8) : UInt32 :=
  UInt32.ofNat (b0.toNat + 256 * (b1.toNat + 256 * (b2.toNat + 256 * b3.toNat)))

/-- The bytes of a 16-bit word. -/
def bytes16 (v : UInt16) : Bytes := [UInt8.ofNat v.toNat, UInt8.ofNat (v.toNat / 256)]

/-- The bytes of a 32-bit word. -/
def bytes32 (v : UInt32) : Bytes :=
  [UInt8.ofNat v.toNat, UInt8.ofNat (v.toNat / 256), UInt8.ofNat (v.toNat / 65536),
    UInt8.ofNat (v.toNat / 16777216)]

@[simp] theorem length_bytes16 (v : UInt16) : (bytes16 v).length = 2 := rfl

@[simp] theorem length_bytes32 (v : UInt32) : (bytes32 v).length = 4 := rfl

theorem word16_toNat (b0 b1 : UInt8) : (word16 b0 b1).toNat = b0.toNat + 256 * b1.toNat := by
  have h0 := b0.toNat_lt
  have h1 := b1.toNat_lt
  rw [word16, UInt16.toNat_ofNat', Nat.mod_eq_of_lt (by omega)]

theorem word32_toNat (b0 b1 b2 b3 : UInt8) : (word32 b0 b1 b2 b3).toNat =
    b0.toNat + 256 * (b1.toNat + 256 * (b2.toNat + 256 * b3.toNat)) := by
  have h0 := b0.toNat_lt
  have h1 := b1.toNat_lt
  have h2 := b2.toNat_lt
  have h3 := b3.toNat_lt
  rw [word32, UInt32.toNat_ofNat', Nat.mod_eq_of_lt (by omega)]

theorem word16_bytes16 (v : UInt16) :
    word16 (UInt8.ofNat v.toNat) (UInt8.ofNat (v.toNat / 256)) = v := by
  have h := v.toNat_lt
  apply UInt16.toNat_inj.mp
  rw [word16_toNat, UInt8.toNat_ofNat', UInt8.toNat_ofNat']
  omega

theorem word32_bytes32 (v : UInt32) :
    word32 (UInt8.ofNat v.toNat) (UInt8.ofNat (v.toNat / 256)) (UInt8.ofNat (v.toNat / 65536))
      (UInt8.ofNat (v.toNat / 16777216)) = v := by
  have h := v.toNat_lt
  apply UInt32.toNat_inj.mp
  rw [word32_toNat, UInt8.toNat_ofNat', UInt8.toNat_ofNat', UInt8.toNat_ofNat',
    UInt8.toNat_ofNat']
  omega

/-! ## C strings -/

/-- The C string a counted byte sequence holds: its bytes before the first NUL. -/
def cString (bs : Bytes) : CStr := bs.takeWhile (· != 0)

/-- A byte sequence without NUL is a C string of that length. -/
theorem cString_eq_self {bs : Bytes} (free : (0 : UInt8) ∉ bs) : cString bs = bs := by
  rw [cString, List.takeWhile_eq_self_iff]
  intro b member
  have : b ≠ 0 := fun equal => free (equal ▸ member)
  simpa using this

/-- A C string followed by its NUL and anything else is read back. -/
theorem cString_append_nul {s : CStr} (free : (0 : UInt8) ∉ s) (after : Bytes) :
    cString (s ++ 0 :: after) = s := by
  induction s with
  | nil => simp [cString]
  | cons b s ih =>
      have notHead : b ≠ 0 := fun equal => free (by simp [equal])
      have tail := ih fun member => free (List.mem_cons_of_mem _ member)
      rw [cString] at tail ⊢
      rw [List.cons_append, List.takeWhile_cons_of_pos (by simpa using notHead), tail]

/-- A NUL at the end changes nothing. -/
theorem cString_concat_nul (bs : Bytes) : cString (bs ++ [0]) = cString bs := by
  induction bs with
  | nil => rfl
  | cons b bs ih =>
      rw [cString, cString] at ih ⊢
      rw [List.cons_append, List.takeWhile_cons, List.takeWhile_cons, ih]

/-! ## Printed numbers -/

/-- The byte of an ASCII character. -/
def charByte (c : Char) : UInt8 := UInt8.ofNat c.toNat

/-- `%u`: the decimal digits of a number. -/
def decimal (n : Nat) : Bytes := (Nat.toDigits 10 n).map charByte

/-- Different numbers are printed differently. -/
theorem decimal_injective {n m : Nat} (same : decimal n = decimal m) : n = m := by
  have read (k : Nat) : (decimal k).map (fun b => Char.ofNat b.toNat) = Nat.toDigits 10 k := by
    rw [decimal, List.map_map]
    refine (List.map_congr_left fun c member => ?_).trans (List.map_id _)
    have digit := Nat.isDigit_of_mem_toDigits (by decide) (le_refl 10) member
    rw [Char.isDigit, Bool.and_eq_true, decide_eq_true_eq, decide_eq_true_eq] at digit
    have small : c.toNat < 256 := lt_of_le_of_lt digit.2 (by decide)
    show Char.ofNat (UInt8.ofNat c.toNat).toNat = c
    rw [UInt8.toNat_ofNat', Nat.mod_eq_of_lt small, Char.ofNat_toNat]
  have digits : Nat.toDigits 10 n = Nat.toDigits 10 m := by rw [← read, ← read, same]
  have value := congrArg (Nat.ofDigitChars 10 · 0) digits
  simpa only [Nat.ofDigitChars_ten_toDigits] using value

/-- `%x`: the hexadecimal digits of a number. -/
def hex (n : Nat) : Bytes := (Nat.toDigits 16 n).map charByte

/-- `%d`: a number with its sign. -/
def decimalInt (n : Int) : Bytes :=
  if n < 0 then charByte '-' :: decimal n.natAbs else decimal n.natAbs

/-- The digits of a number are digits. -/
theorem digit_of_mem_decimal {n : Nat} {b : UInt8} (member : b ∈ decimal n) :
    48 ≤ b.toNat ∧ b.toNat ≤ 57 := by
  obtain ⟨c, isDigit, rfl⟩ := List.mem_map.mp member
  have digit := Nat.isDigit_of_mem_toDigits (by decide) (le_refl 10) isDigit
  rw [Char.isDigit, Bool.and_eq_true, decide_eq_true_eq, decide_eq_true_eq] at digit
  have small : c.toNat ≤ 57 := digit.2
  have large : 48 ≤ c.toNat := digit.1
  rw [charByte, UInt8.toNat_ofNat']
  omega

/-- A number with its sign is read up to a blank. -/
theorem decimalInt_injective {n m : Int} {xs ys : Bytes}
    (same : decimalInt n ++ charByte ' ' :: xs = decimalInt m ++ charByte ' ' :: ys) : n = m := by
  have noBlank (k : Int) : charByte ' ' ∉ decimalInt k := by
    have digits : charByte ' ' ∉ decimal k.natAbs := by
      intro member
      exact absurd (digit_of_mem_decimal member).1 (by decide)
    unfold decimalInt
    split
    · rw [List.mem_cons, not_or]
      exact ⟨by decide, digits⟩
    · exact digits
  have noSign (k : Nat) (rest : Bytes) : decimal k ≠ charByte '-' :: rest := by
    intro signed
    have member : charByte '-' ∈ decimal k := by rw [signed]; exact List.mem_cons_self
    exact absurd (digit_of_mem_decimal member).1 (by decide)
  have read (k : Int) (rest : Bytes) :
      (decimalInt k ++ charByte ' ' :: rest).takeWhile (· != charByte ' ') = decimalInt k := by
    rw [List.takeWhile_append_of_pos, List.takeWhile_cons_of_neg (by simp), List.append_nil]
    intro b member
    have other : b ≠ charByte ' ' := by
      rintro rfl
      exact noBlank k member
    simpa using other
  have digits : decimalInt n = decimalInt m := by rw [← read n xs, ← read m ys, same]
  unfold decimalInt at digits
  split at digits <;> split at digits
  · have := decimal_injective (List.cons.inj digits).2
    omega
  · exact absurd digits.symm (noSign _ _)
  · exact absurd digits (noSign _ _)
  · have := decimal_injective digits
    omega

/-- A field padded on the left to a width. -/
def padLeft (pad : UInt8) (width : Nat) (s : Bytes) : Bytes :=
  List.replicate (width - s.length) pad ++ s

/-- The value of a hexadecimal digit. -/
def hexDigitValue (c : UInt8) : Nat := if c.toNat < 97 then c.toNat - 48 else c.toNat - 87

/-- The number that hexadecimal digits denote. -/
def hexValue (digits : Bytes) : Nat := digits.foldl (fun v c => 16 * v + hexDigitValue c) 0

theorem hexValue_hex (n : Nat) : hexValue (hex n) = n := by
  have digit : ∀ k < 16, hexDigitValue (charByte k.digitChar) = k := by decide
  induction n using Nat.strong_induction_on with
  | _ n ih =>
      rw [hex, Nat.toDigits_eq_if (by decide)]
      split
      · next small => simpa [hexValue] using digit n small
      · next large =>
          have high := ih (n / 16) (Nat.div_lt_self (by omega) (by decide))
          rw [hexValue, hex] at high
          rw [hexValue, List.map_append, List.foldl_append, high, List.map_singleton,
            List.foldl_cons, List.foldl_nil, digit _ (Nat.mod_lt n (by decide))]
          omega

/-- Different numbers are printed differently in a padded field. -/
theorem padLeft_hex_injective {width n m : Nat}
    (same : padLeft (charByte '0') width (hex n) = padLeft (charByte '0') width (hex m)) :
    n = m := by
  have zeros (k : Nat) : (List.replicate k (charByte '0')).foldl
      (fun v c => 16 * v + hexDigitValue c) 0 = 0 := by
    induction k with
    | zero => rfl
    | succ k ih => rw [List.replicate_succ, List.foldl_cons]; exact ih
  have value (k : Nat) : hexValue (padLeft (charByte '0') width (hex k)) = k := by
    rw [padLeft, hexValue, List.foldl_append, zeros]
    exact hexValue_hex k
  rw [← value n, ← value m, same]

/-! ## What is not in a text -/

theorem notMem_append {c : UInt8} {bs cs : Bytes} (first : c ∉ bs) (second : c ∉ cs) :
    c ∉ bs ++ cs := fun member => (List.mem_append.mp member).elim first second

theorem notMem_intercalate {c : UInt8} {sep : Bytes} (free : c ∉ sep) {texts : List Bytes}
    (others : ∀ text ∈ texts, c ∉ text) : c ∉ sep.intercalate texts := by
  induction texts with
  | nil => exact List.not_mem_nil
  | cons text texts ih =>
      obtain ⟨first, later⟩ := List.forall_mem_cons.mp others
      cases texts with
      | nil => rwa [List.intercalate_singleton]
      | cons next texts =>
          rw [List.intercalate_cons_cons]
          exact notMem_append (notMem_append first free) (ih later)

/-- The digits numbers are printed with. -/
def hexDigits : Bytes := lit "0123456789abcdef"

section Digits

variable {c : UInt8} (other : c ∉ hexDigits)

include other

theorem notMem_hex (n : Nat) : c ∉ hex n := by
  have digit : ∀ k < 16, charByte k.digitChar ∈ hexDigits := by decide
  induction n using Nat.strong_induction_on with
  | _ n ih =>
      have digits : hex n =
          if n < 16 then [charByte n.digitChar] else hex (n / 16) ++ [charByte (n % 16).digitChar] := by
        rw [hex, Nat.toDigits_eq_if (by decide)]
        split
        · rfl
        · rw [List.map_append, hex]
          rfl
      rw [digits]
      split
      · next small => exact fun member => other (List.mem_singleton.mp member ▸ digit n small)
      · next large =>
          refine notMem_append (ih (n / 16) (Nat.div_lt_self (by omega) (by decide))) ?_
          exact fun member => other (List.mem_singleton.mp member ▸ digit _ (Nat.mod_lt n (by decide)))

theorem notMem_decimal (n : Nat) : c ∉ decimal n := by
  intro member
  have number := digit_of_mem_decimal member
  have digit : ∀ k < 10, UInt8.ofNat (48 + k) ∈ hexDigits := by decide
  have isDigit := digit (c.toNat - 48) (by omega)
  rw [Nat.add_sub_cancel' number.1, UInt8.ofNat_toNat] at isDigit
  exact other isDigit

end Digits

end Ykern
