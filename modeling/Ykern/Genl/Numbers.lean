import Ykern.Genl.EthtoolRequest

/-!
# Text read as a number of 32 bits

At three places a text is read as an unsigned number of 32 bits: the keys of an overlay, the
index of an interface, and the values of a generic invocation. The last one looks at the
digits first. The other two leave it to the conversion of the C library, which also accepts
blanks and a sign in front of the digits and takes a negative number modulo the range; the
index of an interface may be empty in addition. Apart from such texts they read what is
written in digits and nothing else (`numbers_read_iff`).
-/

set_option autoImplicit false

namespace Ykern.Genl

open Overlay Netlink

/-- A number of 32 bits, written in decimal digits. -/
structure IsDecimal (s : CStr) (n : UInt32) : Prop where
  nonempty : s ≠ []
  numeric : ∀ c ∈ s, isDigit c = true
  value : digitsValue s = n.toNat

/-- What is accepted as a number is what is written in digits, and the number is its value. -/
def ReadsDecimals (read : CStr → Option UInt32) (s : CStr) : Prop :=
  ∀ n, read s = some n ↔ IsDecimal s n

/-- A number that fits 32 bits with blanks or a sign in front of it. -/
def Prefixed (s : CStr) : Prop :=
  ∃ blanks sign digits, Numeral s blanks sign digits ∧ ¬(blanks = [] ∧ sign = []) ∧
    digitsValue digits < ulongRange ∧ signedValue sign digits < 2 ^ 32

/-- The number `invoke_ethtool_get` reads from the argument `ifindex`. -/
def ifindexNumber (s : CStr) : Option UInt32 :=
  let v := strtoul s
  if v.rest ≠ [] ∨ 2 ^ 32 - 1 < v.value then none else some (UInt32.ofNat v.value)

/-- The number `invoke_generic_genl` reads from the value of an argument. -/
def valueNumber (s : CStr) : Option UInt32 :=
  let v := strtoul s
  if looksLikeUint s ∧ v.rest = [] ∧ v.value ≤ 2 ^ 32 - 1 then some (UInt32.ofNat v.value)
  else none

/-! ## What the conversion accepts -/

/-- A text converted to its end, to a number of 32 bits. -/
def Converts (s : CStr) (n : UInt32) : Prop :=
  ∃ blanks sign digits, Numeral s blanks sign digits ∧ digitsValue digits < ulongRange ∧
    signedValue sign digits = n.toNat

theorem eq_ofNat_iff {v : Nat} {n : UInt32} (small : v < 2 ^ 32) :
    UInt32.ofNat v = n ↔ v = n.toNat := by
  rw [← UInt32.toNat_inj, UInt32.toNat_ofNat', Nat.mod_eq_of_lt small]

/-- Where something is converted, the sites that rely on the conversion agree on it. -/
theorem converts_iff {s : CStr} {n : UInt32} (converted : (strtoul s).converted = true) :
    ((strtoul s).rest = [] ∧ (strtoul s).value < 2 ^ 32 ∧ (strtoul s).value = n.toNat) ↔
      Converts s n := by
  constructor
  · rintro ⟨toEnd, small, value⟩
    obtain ⟨blanks, sign, digits, numeral⟩ := exists_numeral converted toEnd
    rw [numeral.strtoul_eq] at small value
    split at small
    · simp [ulongRange] at small
    · next inRange =>
        rw [if_neg inRange] at value
        exact ⟨blanks, sign, digits, numeral, by omega, value⟩
  · rintro ⟨blanks, sign, digits, numeral, inRange, value⟩
    rw [numeral.strtoul_eq, if_neg (by omega)]
    exact ⟨rfl, value ▸ n.toNat_lt, value⟩

theorem Converts.converted {s : CStr} {n : UInt32} (converts : Converts s n) :
    (strtoul s).converted = true ∧ (strtoul s).erange = false := by
  obtain ⟨blanks, sign, digits, numeral, inRange, _⟩ := converts
  rw [numeral.strtoul_eq, if_neg (by omega)]
  exact ⟨rfl, rfl⟩

/-- The whole text is left, or a number was read. -/
theorem rest_of_not_converted {s : CStr} (missing : (strtoul s).converted = false) :
    strtoul s = ⟨0, s, false, false⟩ := by
  simp only [strtoul] at missing ⊢
  split
  · rfl
  · next digits =>
      rw [if_neg digits] at missing
      split at missing
      · cases missing
      · split at missing
        · cases missing
        · cases missing

theorem parseUint32_eq_some_iff {s : CStr} {n : UInt32} :
    parseUint32 s = some n ↔ Converts s n := by
  unfold parseUint32
  constructor
  · intro read
    split at read
    · cases read
    · simp only at read
      split at read
      · cases read
      · next accepted =>
          simp only [not_or, Bool.not_eq_true, Bool.not_eq_false, ne_eq, not_not, not_lt] at accepted
          have small : (strtoul s).value < 2 ^ 32 := by omega
          exact (converts_iff accepted.2.1).mp ⟨accepted.2.2.1, small,
            (eq_ofNat_iff small).mp (Option.some.inj read)⟩
  · intro converts
    have ⟨converted, inRange⟩ := converts.converted
    have ⟨toEnd, small, value⟩ := (converts_iff converted).mpr converts
    have nonempty : s ≠ [] := by
      rintro rfl
      cases converted
    have fits : ¬2 ^ 32 - 1 < (strtoul s).value := by omega
    simp only [nonempty, if_false, converted, inRange, toEnd, fits, Bool.false_eq_true,
      reduceCtorEq, ne_eq, not_true_eq_false, or_self, Option.some.injEq]
    exact (eq_ofNat_iff small).mpr value

theorem ifindexNumber_eq_some_iff {s : CStr} {n : UInt32} :
    ifindexNumber s = some n ↔ Converts s n ∨ s = [] ∧ n = 0 := by
  have accepted : ifindexNumber s = some n ↔
      (strtoul s).rest = [] ∧ (strtoul s).value < 2 ^ 32 ∧ (strtoul s).value = n.toNat := by
    unfold ifindexNumber
    constructor
    · intro read
      simp only at read
      split at read
      · cases read
      · next accepted =>
          rw [not_or, not_not] at accepted
          have small : (strtoul s).value < 2 ^ 32 := by omega
          exact ⟨accepted.1, small, (eq_ofNat_iff small).mp (Option.some.inj read)⟩
    · rintro ⟨toEnd, small, value⟩
      have fits : ¬2 ^ 32 - 1 < (strtoul s).value := by omega
      simp only [toEnd, fits, ne_eq, not_true_eq_false, or_self, if_false, Option.some.injEq]
      exact (eq_ofNat_iff small).mpr value
  rw [accepted]
  cases converted : (strtoul s).converted with
  | true =>
      rw [converts_iff converted]
      constructor
      · exact .inl
      · rintro (converts | ⟨rfl, _⟩)
        · exact converts
        · cases converted
  | false =>
      rw [rest_of_not_converted converted]
      constructor
      · rintro ⟨empty, _, zero⟩
        exact .inr ⟨empty, UInt32.toNat_inj.mp zero.symm⟩
      · rintro (converts | ⟨empty, rfl⟩)
        · rw [converts.converted.1] at converted
          cases converted
        · exact ⟨empty, Nat.two_pow_pos 32, rfl⟩

/-! ## Digits -/

/-- Digits are converted to their value. -/
theorem IsDecimal.converts {s : CStr} {n : UInt32} (decimal : IsDecimal s n) : Converts s n := by
  have small := n.toNat_lt
  refine ⟨[], [], s, ⟨rfl, by simp, .inl rfl, decimal.nonempty, decimal.numeric⟩, ?_, decimal.value⟩
  rw [decimal.value]
  unfold ulongRange
  omega

/-- What is converted is written in digits, unless there are blanks or a sign. -/
theorem Converts.isDecimal {s : CStr} {n : UInt32} (converts : Converts s n)
    (bare : ¬Prefixed s) : IsDecimal s n := by
  obtain ⟨blanks, sign, digits, numeral, inRange, value⟩ := converts
  by_cases front : blanks = [] ∧ sign = []
  · obtain ⟨rfl, rfl⟩ := front
    obtain rfl : s = digits := numeral.whole
    exact ⟨numeral.nonempty, numeral.numeric, value⟩
  · exact absurd ⟨blanks, sign, digits, numeral, front, inRange, value ▸ n.toNat_lt⟩ bare

/-- A text with blanks or a sign is not made of digits. -/
theorem Prefixed.not_numeric {s : CStr} (front : Prefixed s) : ¬∀ c ∈ s, isDigit c = true := by
  intro numeric
  obtain ⟨blanks, sign, digits, ⟨rfl, spaces, signed, _, _⟩, front, _⟩ := front
  cases blanks with
  | nil =>
      rcases signed with rfl | rfl | rfl
      · exact front ⟨rfl, rfl⟩
      · exact absurd (numeric 43 (by simp)) (by decide)
      · exact absurd (numeric 45 (by simp)) (by decide)
  | cons c blanks =>
      have space := not_isSpace_of_isDigit (numeric c (by simp))
      rw [spaces c List.mem_cons_self] at space
      cases space

theorem IsDecimal.not_prefixed {s : CStr} {n : UInt32} (decimal : IsDecimal s n) : ¬Prefixed s :=
  fun front => front.not_numeric decimal.numeric

/-- What the conversion accepts is what is written in digits exactly where there are neither
blanks nor a sign. -/
theorem readsDecimals_converts_iff {read : CStr → Option UInt32} {s : CStr}
    (reads : ∀ n, read s = some n ↔ Converts s n) : ReadsDecimals read s ↔ ¬Prefixed s := by
  constructor
  · rintro decimals ⟨blanks, sign, digits, numeral, front, inRange, small⟩
    have converts : Converts s (UInt32.ofNat (signedValue sign digits)) :=
      ⟨blanks, sign, digits, numeral, inRange, (eq_ofNat_iff small).mp rfl⟩
    exact ((decimals _).mp ((reads _).mpr converts)).not_prefixed
      ⟨blanks, sign, digits, numeral, front, inRange, small⟩
  · intro bare n
    rw [reads n]
    exact ⟨fun converts => converts.isDecimal bare, IsDecimal.converts⟩

/-! ## The three places -/

/-- The keys of an overlay. -/
theorem readsDecimals_parseUint32_iff (s : CStr) :
    ReadsDecimals parseUint32 s ↔ ¬Prefixed s :=
  readsDecimals_converts_iff fun _ => parseUint32_eq_some_iff

/-- The index of an interface. -/
theorem readsDecimals_ifindexNumber_iff (s : CStr) :
    ReadsDecimals ifindexNumber s ↔ s ≠ [] ∧ ¬Prefixed s := by
  by_cases empty : s = []
  · refine ⟨fun decimals => ?_, fun bare => absurd empty bare.1⟩
    have zero := (decimals 0).mp (ifindexNumber_eq_some_iff.mpr (.inr ⟨empty, rfl⟩))
    exact absurd empty zero.nonempty
  · have reads (n : UInt32) : ifindexNumber s = some n ↔ Converts s n := by
      rw [ifindexNumber_eq_some_iff]
      exact or_iff_left fun other => empty other.1
    rw [readsDecimals_converts_iff reads]
    exact (and_iff_right empty).symm

/-- The values of a generic invocation. -/
theorem readsDecimals_valueNumber (s : CStr) : ReadsDecimals valueNumber s := by
  intro n
  have accepted : valueNumber s = some n ↔ looksLikeUint s = true ∧ (strtoul s).rest = [] ∧
      (strtoul s).value < 2 ^ 32 ∧ (strtoul s).value = n.toNat := by
    simp only [valueNumber]
    constructor
    · intro read
      split at read
      · next packed =>
          have small : (strtoul s).value < 2 ^ 32 := by omega
          exact ⟨packed.1, packed.2.1, small, (eq_ofNat_iff small).mp (Option.some.inj read)⟩
      · cases read
    · rintro ⟨uint, toEnd, small, value⟩
      rw [if_pos ⟨uint, toEnd, by omega⟩, Option.some.injEq]
      exact (eq_ofNat_iff small).mpr value
  have digits : looksLikeUint s = true ↔ s ≠ [] ∧ ∀ c ∈ s, isDigit c = true := by
    simp only [looksLikeUint, Bool.and_eq_true, decide_eq_true_eq, List.all_eq_true]
  rw [accepted, digits]
  constructor
  · rintro ⟨numeric, number⟩
    have converted : (strtoul s).converted = true := by
      rw [strtoul_digits numeric.1 numeric.2]
      split
      · rfl
      · rfl
    exact ((converts_iff converted).mp number).isDecimal fun front => front.not_numeric numeric.2
  · intro decimal
    exact ⟨⟨decimal.nonempty, decimal.numeric⟩,
      (converts_iff decimal.converts.converted.1).mpr decimal.converts⟩

/-- The request carries the index that was read, or its text is answered. -/
theorem ethtoolRequest_ifindex {args : InvokeArgs} {s : CStr} (op : Operation) (family : Family)
    (schema : EthtoolSchema) (seq : UInt32) (noName : argsLookup args (lit "ifname") = none)
    (index : argsLookup args (lit "ifindex") = some s) :
    ∃ cmd version, ethtoolRequest op family schema args seq =
      (ifindexNumber s).elim (.text (orNull op.overlayName ++ lit ": ifindex must be a u32"))
        fun n => .send (msg family.id (requestFlags (ethtoolDumpMode args)) seq
          (genlHeader cmd version ++ attr (schema.hdrAttrId.toUInt16 ||| nlaFNested)
            (Framing.encode [attr schema.devIndexId.toUInt16 (bytes32 n)]))) := by
  obtain ⟨cmd, version, request⟩ := ethtoolRequest_eq op family schema args seq
  refine ⟨cmd, version, request.trans ?_⟩
  simp only [noName, index, ifindexNumber, ethtoolMsg, ethtoolInner, ethtoolSelector,
    Option.toList_some, List.map_singleton]
  split
  · rfl
  · rfl

/-- A value is packed as the number that was read, or as a string. -/
theorem packValue_eq_elim (b : AttrBuf) (type : UInt16) (s : CStr) :
    packValue b type s = (valueNumber s).elim
      ((abString b type s).elim (.error ["generic invoke: buffer overflow on string attr"]) .ok)
      fun n => (abU32 b type n).elim
        (.error ["generic invoke: buffer overflow on u32 attr"]) .ok := by
  simp only [packValue, valueNumber]
  split
  · simp only [Option.elim_some]
    split
    · next full => rw [full]; rfl
    · next b' appended => rw [appended]; rfl
  · simp only [Option.elim_none]
    split
    · next full => rw [full]; rfl
    · next b' appended => rw [appended]; rfl

/-- **Where text is read as a number of 32 bits.** The values of a generic invocation are
read as numbers when they are written in digits, whatever they are. For the keys of an overlay
this is so exactly when there is no number behind blanks or a sign, and for the index of an
interface exactly when in addition the text is not empty. The requests carry the numbers
read. -/
theorem numbers_read_iff (s : CStr) :
    (ReadsDecimals parseUint32 s ↔ ¬Prefixed s) ∧
      (ReadsDecimals ifindexNumber s ↔ s ≠ [] ∧ ¬Prefixed s) ∧
      ReadsDecimals valueNumber s ∧
      (∀ op family schema args seq, argsLookup args (lit "ifname") = none →
        argsLookup args (lit "ifindex") = some s →
        ∃ cmd version, ethtoolRequest op family schema args seq =
          (ifindexNumber s).elim (.text (orNull op.overlayName ++ lit ": ifindex must be a u32"))
            fun n => .send (msg family.id (requestFlags (ethtoolDumpMode args)) seq
              (genlHeader cmd version ++ attr (schema.hdrAttrId.toUInt16 ||| nlaFNested)
                (Framing.encode [attr schema.devIndexId.toUInt16 (bytes32 n)])))) ∧
      ∀ b type, packValue b type s = (valueNumber s).elim
        ((abString b type s).elim (.error ["generic invoke: buffer overflow on string attr"]) .ok)
        fun n => (abU32 b type n).elim
          (.error ["generic invoke: buffer overflow on u32 attr"]) .ok := by
  refine ⟨readsDecimals_parseUint32_iff s, readsDecimals_ifindexNumber_iff s,
    readsDecimals_valueNumber s, ?_, fun b type => packValue_eq_elim b type s⟩
  intro op family schema args seq noName index
  exact ethtoolRequest_ifindex op family schema seq noName index

/-- A sign is accepted in front of a key and of an index, a negative number is taken modulo
the range, and an empty index is zero. -/
theorem prefixed_numbers_read :
    ¬ReadsDecimals parseUint32 (lit "+5") ∧
      ¬ReadsDecimals ifindexNumber (lit "-18446744073709551615") ∧
      ¬ReadsDecimals ifindexNumber [] ∧ parseUint32 (lit "+5") = some 5 ∧
      ifindexNumber (lit "-18446744073709551615") = some 1 ∧ ifindexNumber [] = some 0 := by
  have signed : parseUint32 (lit "+5") = some 5 := by decide
  have negative : ifindexNumber (lit "-18446744073709551615") = some 1 := by decide +kernel
  have empty : ifindexNumber [] = some 0 := by decide
  refine ⟨?_, ?_, ?_, signed, negative, empty⟩
  · intro decimals
    exact absurd (((decimals 5).mp signed).numeric 43 (by decide)) (by decide)
  · intro decimals
    exact absurd (((decimals 1).mp negative).numeric 45 (by decide)) (by decide)
  · intro decimals
    exact ((decimals 0).mp empty).nonempty rfl

end Ykern.Genl
