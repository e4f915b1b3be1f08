import Ykern.Foundation.Bytes

/-!
# Text read as an unsigned number

The C library's conversion of text to an unsigned number skips blanks, accepts
a sign, reads as many decimal digits as there are, negates a negative number
modulo the range, and answers the largest number, with a range error, when the
digits denote more than that. It reports where it stopped.

On a string of digits alone it stops at the end and answers the value the digits
denote, or the largest number (`strtoul_digits`). The texts converted to their end
are those of blanks, a sign and digits (`Numeral.strtoul_eq`, `exists_numeral`).
-/

set_option autoImplicit false

namespace Ykern

/-- `isspace` in the C locale: the blank and the controls from tab to carriage
return. -/
def isSpace (c : UInt8) : Bool := c == 32 || (9 ≤ c && c ≤ 13)

/-- An ASCII decimal digit. -/
def isDigit (c : UInt8) : Bool := 48 ≤ c && c ≤ 57

/-- The number a string of decimal digits denotes. -/
def digitsValue (digits : Bytes) : Nat :=
  digits.foldl (fun value digit => value * 10 + (digit.toNat - 48)) 0

/-- The number of values of an `unsigned long`. -/
def ulongRange : Nat := 2 ^ 64

/-- What a conversion answers: the value, the text left at the end pointer,
whether any digits were read, and whether the range was exceeded. -/
structure Conversion where
  value : Nat
  rest : CStr
  converted : Bool
  erange : Bool
  deriving DecidableEq

/-- An optional sign in front of the digits: whether it is a minus, and the text
after it. -/
def signOf : CStr → Bool × CStr
  | 45 :: rest => (true, rest)
  | 43 :: rest => (false, rest)
  | text => (false, text)

/-- `strtoul` and `strtoull` in base ten. Without digits nothing is converted
and the end pointer stays at the start. -/
def strtoul (s : CStr) : Conversion :=
  let signed := signOf (s.dropWhile isSpace)
  let digits := signed.2.takeWhile isDigit
  let rest := signed.2.dropWhile isDigit
  if digits = [] then ⟨0, s, false, false⟩
  else if ulongRange ≤ digitsValue digits then ⟨ulongRange - 1, rest, true, true⟩
  else if signed.1 then ⟨(ulongRange - digitsValue digits) % ulongRange, rest, true, false⟩
  else ⟨digitsValue digits, rest, true, false⟩

theorem not_isSpace_of_isDigit {c : UInt8} (digit : isDigit c = true) : isSpace c = false := by
  simp only [isDigit, isSpace, Bool.and_eq_true, decide_eq_true_eq, Bool.or_eq_false_iff,
    Bool.and_eq_false_iff, decide_eq_false_iff_not, beq_eq_false_iff_ne, UInt8.le_iff_toNat_le,
    ne_eq, ← UInt8.toNat_inj] at digit ⊢
  have h9 : (9 : UInt8).toNat = 9 := rfl
  have h13 : (13 : UInt8).toNat = 13 := rfl
  have h32 : (32 : UInt8).toNat = 32 := rfl
  have h48 : (48 : UInt8).toNat = 48 := rfl
  omega

theorem signOf_digit {c : UInt8} (digit : isDigit c = true) (rest : CStr) :
    signOf (c :: rest) = (false, c :: rest) := by
  unfold signOf
  split
  · next equal => cases equal; exact absurd digit (by decide)
  · next equal => cases equal; exact absurd digit (by decide)
  · rfl

/-- **A string of digits is converted whole**, to the number it denotes or to the
largest one. -/
theorem strtoul_digits {s : CStr} (nonempty : s ≠ []) (digits : ∀ c ∈ s, isDigit c = true) :
    strtoul s =
      if ulongRange ≤ digitsValue s then ⟨ulongRange - 1, [], true, true⟩
      else ⟨digitsValue s, [], true, false⟩ := by
  have take : s.takeWhile isDigit = s := by
    rw [List.takeWhile_eq_self_iff]
    exact digits
  have drop : s.dropWhile isDigit = [] := by
    rw [List.dropWhile_eq_nil_iff]
    exact digits
  obtain ⟨c, rest, rfl⟩ := List.exists_cons_of_ne_nil nonempty
  have head := digits c (by simp)
  have blanks : (c :: rest).dropWhile isSpace = c :: rest := by
    rw [List.dropWhile_cons_of_neg (by simp [not_isSpace_of_isDigit head])]
  simp only [strtoul, blanks, signOf_digit head, take, drop, reduceCtorEq, if_false,
    Bool.false_eq_true]

/-! ## Blanks, a sign and digits -/

/-- A text made of blanks, at most one sign, and digits. -/
structure Numeral (s blanks sign digits : CStr) : Prop where
  whole : s = blanks ++ (sign ++ digits)
  spaces : ∀ c ∈ blanks, isSpace c = true
  signed : sign = [] ∨ sign = [43] ∨ sign = [45]
  nonempty : digits ≠ []
  numeric : ∀ c ∈ digits, isDigit c = true

/-- The number that a sign and digits denote among the values of an `unsigned long`. -/
def signedValue (sign digits : CStr) : Nat :=
  if sign = [45] then (ulongRange - digitsValue digits) % ulongRange else digitsValue digits

theorem signOf_append {sign digits : CStr} (signed : sign = [] ∨ sign = [43] ∨ sign = [45])
    (nonempty : digits ≠ []) (numeric : ∀ c ∈ digits, isDigit c = true) :
    signOf (sign ++ digits) = (decide (sign = [45]), digits) := by
  rcases signed with rfl | rfl | rfl
  · obtain ⟨c, rest, rfl⟩ := List.exists_cons_of_ne_nil nonempty
    exact signOf_digit (numeric c List.mem_cons_self) rest
  · rfl
  · rfl

/-- **Blanks, a sign and digits are converted whole.** -/
theorem Numeral.strtoul_eq {s blanks sign digits : CStr} (numeral : Numeral s blanks sign digits) :
    strtoul s =
      if ulongRange ≤ digitsValue digits then ⟨ulongRange - 1, [], true, true⟩
      else ⟨signedValue sign digits, [], true, false⟩ := by
  obtain ⟨rfl, spaces, signed, nonempty, numeric⟩ := numeral
  have start : (blanks ++ (sign ++ digits)).dropWhile isSpace = sign ++ digits := by
    rw [List.dropWhile_append_of_pos spaces]
    rcases signed with rfl | rfl | rfl
    · obtain ⟨c, rest, rfl⟩ := List.exists_cons_of_ne_nil nonempty
      exact List.dropWhile_cons_of_neg
        (by simp [not_isSpace_of_isDigit (numeric c List.mem_cons_self)])
    · rfl
    · rfl
  have take : digits.takeWhile isDigit = digits := List.takeWhile_eq_self_iff.mpr numeric
  have drop : digits.dropWhile isDigit = [] := List.dropWhile_eq_nil_iff.mpr numeric
  simp only [strtoul, start, signOf_append signed nonempty numeric, take, drop, nonempty,
    if_false, signedValue, decide_eq_true_eq]
  split
  · rfl
  · split
    · rfl
    · rfl

/-- A text that is converted to its end is one. -/
theorem exists_numeral {s : CStr} (converted : (strtoul s).converted = true)
    (rest : (strtoul s).rest = []) : ∃ blanks sign digits, Numeral s blanks sign digits := by
  obtain ⟨sign, signed, split⟩ : ∃ sign, (sign = [] ∨ sign = [43] ∨ sign = [45]) ∧
      s.dropWhile isSpace = sign ++ (signOf (s.dropWhile isSpace)).2 := by
    unfold signOf
    split
    · next text => exact ⟨[45], .inr (.inr rfl), text⟩
    · next text => exact ⟨[43], .inr (.inl rfl), text⟩
    · exact ⟨[], .inl rfl, rfl⟩
  have digits : (signOf (s.dropWhile isSpace)).2.takeWhile isDigit ≠ [] := by
    intro none
    simp [strtoul, none] at converted
  have toEnd : (signOf (s.dropWhile isSpace)).2.dropWhile isDigit = [] := by
    simp only [strtoul, if_neg digits] at rest
    split at rest
    · exact rest
    · split at rest
      · exact rest
      · exact rest
  have numeric := List.dropWhile_eq_nil_iff.mp toEnd
  refine ⟨s.takeWhile isSpace, sign, (signOf (s.dropWhile isSpace)).2, ?_, ?_, signed, ?_, numeric⟩
  · rw [← split, List.takeWhile_append_dropWhile]
  · intro c member
    exact List.mem_takeWhile_imp member
  · intro none
    rw [none] at digits
    exact digits rfl

/-! ## Numbers inside a text -/

theorem isDigit_of_mem_decimal {n : Nat} {b : UInt8} (member : b ∈ decimal n) :
    isDigit b = true := by
  have range := digit_of_mem_decimal member
  rw [isDigit, Bool.and_eq_true, decide_eq_true_eq, decide_eq_true_eq, UInt8.le_iff_toNat_le,
    UInt8.le_iff_toNat_le]
  exact range

theorem digitsValue_concat (digits : Bytes) (d : UInt8) :
    digitsValue (digits ++ [d]) = digitsValue digits * 10 + (d.toNat - 48) := by
  rw [digitsValue, List.foldl_append]
  rfl

/-- The value of a digit. -/
theorem charByte_digitChar {d : Nat} (small : d < 10) :
    (charByte (Nat.digitChar d)).toNat - 48 = d := by
  interval_cases d <;> rfl

/-- What is printed denotes the number. -/
theorem digitsValue_decimal (n : Nat) : digitsValue (decimal n) = n := by
  induction n using Nat.strong_induction_on with
  | _ n ih =>
      by_cases small : n < 10
      · have one : decimal n = [charByte (Nat.digitChar n)] := by
          rw [decimal, Nat.toDigits_of_lt_base small, List.map_singleton]
        rw [one, ← List.nil_append [_], digitsValue_concat, charByte_digitChar small]
        exact Nat.zero_add n
      · have more : decimal n = decimal (n / 10) ++ [charByte (Nat.digitChar (n % 10))] := by
          rw [decimal, Nat.toDigits_of_base_le (by omega) (by omega), List.map_append,
            List.map_singleton]
          rfl
        rw [more, digitsValue_concat, ih _ (by omega),
          charByte_digitChar (Nat.mod_lt n (by omega))]
        omega

/-- A number is read up to the first byte that is no digit. -/
theorem dropWhile_isDigit_decimal (n : Nat) {c : UInt8} (stop : isDigit c = false) (rest : Bytes) :
    (decimal n ++ c :: rest).dropWhile isDigit = c :: rest := by
  rw [List.dropWhile_append_of_pos fun b member => isDigit_of_mem_decimal member,
    List.dropWhile_cons_of_neg (by simp [stop])]

theorem takeWhile_isDigit_decimal (n : Nat) {c : UInt8} (stop : isDigit c = false) (rest : Bytes) :
    (decimal n ++ c :: rest).takeWhile isDigit = decimal n := by
  rw [List.takeWhile_append_of_pos fun b member => isDigit_of_mem_decimal member,
    List.takeWhile_cons_of_neg (by simp [stop]), List.append_nil]

/-- A number in front of a text is read off it. -/
theorem decimal_append_inj {n m : Nat} {c c' : UInt8} {xs ys : Bytes} (stop : isDigit c = false)
    (stop' : isDigit c' = false) (same : decimal n ++ c :: xs = decimal m ++ c' :: ys) :
    n = m ∧ c :: xs = c' :: ys := by
  have digits := congrArg (List.takeWhile isDigit) same
  have rest := congrArg (List.dropWhile isDigit) same
  rw [takeWhile_isDigit_decimal n stop, takeWhile_isDigit_decimal m stop'] at digits
  rw [dropWhile_isDigit_decimal n stop, dropWhile_isDigit_decimal m stop'] at rest
  exact ⟨decimal_injective digits, rest⟩

/-- A number behind a text is read off it. -/
theorem append_decimal_inj {n m : Nat} {c c' : UInt8} {xs ys : Bytes} (stop : isDigit c = false)
    (stop' : isDigit c' = false) (same : xs ++ c :: decimal n = ys ++ c' :: decimal m) :
    xs = ys ∧ n = m := by
  have reversed (k : Nat) (b : UInt8) (noDigit : isDigit b = false) (zs : Bytes) :
      ((zs ++ b :: decimal k).reverse.takeWhile isDigit).reverse = decimal k := by
    rw [List.reverse_append, List.reverse_cons, List.append_assoc,
      List.takeWhile_append_of_pos fun a member =>
        isDigit_of_mem_decimal (List.mem_reverse.mp member),
      List.singleton_append, List.takeWhile_cons_of_neg (by simp [noDigit]), List.append_nil,
      List.reverse_reverse]
  have digits : decimal n = decimal m := by
    rw [← reversed n c stop xs, ← reversed m c' stop' ys, same]
  rw [digits] at same
  exact ⟨List.append_inj_left' same rfl, decimal_injective digits⟩

end Ykern
