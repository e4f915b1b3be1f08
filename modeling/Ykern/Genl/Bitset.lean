import Ykern.Genl.RenderMeaning

/-!
# The bits of a bit set

A bit set in list form holds entries with an index, a name, and a value flag. In a bit
set with a mask, the value flag says that the bit is set. In a bit set without one,
which carries the flag `NOMASK`, the bits listed are those that are set, and entries
carry no value flag.

The renderer prints one line for each entry, with the value flag as on or off, and does
not look at `NOMASK` (`streamText_bitset`). So the lines are right exactly when there is
no `NOMASK`, or all entries carry the value flag nevertheless (`bitset_lines_iff`).
-/

set_option autoImplicit false

namespace Ykern.Genl

open Overlay Netlink

/-! ## The sets of the metadata -/

/-- The set `BITSET`. -/
def bitsetSet : AttrSetOverlay where
  setName := lit "BITSET"
  attrs := ⟨[⟨1, some (lit "NOMASK"), some (lit "flag")⟩, ⟨2, some (lit "SIZE"), some (lit "u32")⟩,
    ⟨3, some (lit "BITS"), some (lit "nest - _A_BITSET_BITS_*")⟩,
    ⟨4, some (lit "VALUE"), some (lit "binary")⟩, ⟨5, some (lit "MASK"), some (lit "binary")⟩], 16⟩

/-- The set `BITSET_BITS`. -/
def bitsetBitsSet : AttrSetOverlay where
  setName := lit "BITSET_BITS"
  attrs := ⟨[⟨1, some (lit "BIT"), some (lit "nest - _A_BITSET_BIT_*")⟩], 16⟩

/-- The set `BITSET_BIT`. -/
def bitsetBitSet : AttrSetOverlay where
  setName := lit "BITSET_BIT"
  attrs := ⟨[⟨1, some (lit "INDEX"), some (lit "u32")⟩, ⟨2, some (lit "NAME"), some (lit "string")⟩,
    ⟨3, some (lit "VALUE"), some (lit "flag")⟩], 16⟩

/-- The overlay has the sets of entries, and no sets with the names of the attributes that
stand for them. -/
structure BitsetSchema (all : Option FamilyOverlay) : Prop where
  bits : findAttrSet all (lit "BITSET_BITS") = some bitsetBitsSet
  bit : findAttrSet all (lit "BITSET_BIT") = some bitsetBitSet
  noBits : findAttrSet all (lit "BITS") = none
  noBit : findAttrSet all (lit "BIT") = none

/-! ## What a bit set says -/

/-- An attribute of this type is among the attributes. -/
def carries (type : UInt16) (data : Bytes) : Bool :=
  (nla.frames data).any fun f => attrType f == type

/-- The entries of a bit set. -/
def listedBits (data : Bytes) : List Bytes :=
  ((nla.frames data).filter fun f => attrType f == 3).flatMap fun f =>
    (nla.frames (payload f)).filter fun bit => attrType bit == 1

/-- Whether the bit of an entry is set, in a bit set with these attributes. -/
def bitIsSet (data bit : Bytes) : Bool := carries 1 data || carries 3 (payload bit)

/-- The identifiers of the attributes of an entry. -/
def entryIds : BitIds := ⟨1, 2, 3⟩

/-- The text of an attribute of the nest with the entries, with what the line of an entry
says. -/
def bitPiece (shown : Bytes → Bool) (all : Option FamilyOverlay) (depth : Nat) (bit : Bytes) :
    Bytes :=
  if attrType bit = 1 then
    indentText depth ++ bitLine (bitEntry entryIds (payload bit)).idx
      (bitEntry entryIds (payload bit)).name (shown bit)
  else wholeAttrText (some bitsetBitsSet) all depth bit

/-- The text of the nest with the entries. -/
def bitsText (shown : Bytes → Bool) (all : Option FamilyOverlay) (depth : Nat) (data : Bytes) :
    Bytes :=
  (nla.frames data).flatMap (bitPiece shown all depth)

/-- The text of an attribute of a bit set. -/
def bitsetPiece (shown : Bytes → Bool) (all : Option FamilyOverlay) (depth : Nat) (f : Bytes) :
    Bytes :=
  if attrType f = 3 then
    indentText depth ++ (lit "BITS:\n" ++ bitsText shown all (depth + 1) (payload f))
  else wholeAttrText (some bitsetSet) all depth f

/-- The text of a bit set. -/
def bitsetText (shown : Bytes → Bool) (all : Option FamilyOverlay) (depth : Nat) (data : Bytes) :
    Bytes :=
  (nla.frames data).flatMap (bitsetPiece shown all depth)

/-! ## What is printed -/

/-- The lookup of the renderer finds the identifiers. -/
theorem bitIds_bitsetBitSet : bitIds bitsetBitSet = some entryIds := by decide +kernel

theorem toUInt32_eq_iff (t n : UInt16) : t.toUInt32 = n.toUInt32 ↔ t = n := by
  constructor
  · intro same
    have := congrArg UInt32.toNat same
    rw [UInt16.toNat_toUInt32, UInt16.toNat_toUInt32] at this
    exact UInt16.toNat_inj.mp this
  · rintro rfl
    rfl

/-- The value flag that is found is the one that is carried. -/
theorem valueSet_foldl (entry : BitEntry) (fs : List Bytes) :
    (fs.foldl (BitEntry.take entryIds) entry).valueSet =
      (entry.valueSet || fs.any fun f => attrType f == 3) := by
  induction fs generalizing entry with
  | nil => simp
  | cons f fs ih =>
      rw [List.foldl_cons, ih, List.any_cons, ← Bool.or_assoc]
      congr 1
      have idx : ((attrType f).toUInt32 = entryIds.idx) ↔ attrType f = 1 := toUInt32_eq_iff _ 1
      have name : ((attrType f).toUInt32 = entryIds.name) ↔ attrType f = 2 := toUInt32_eq_iff _ 2
      have val : ((attrType f).toUInt32 = entryIds.val) ↔ attrType f = 3 := toUInt32_eq_iff _ 3
      unfold BitEntry.take
      simp only [idx, name, val]
      split
      · next found => simp [found.1]
      · split
        · next found => simp [found]
        · split
          · next found => simp [found]
          · next missing => simp [missing]

theorem valueSet_bitEntry (data : Bytes) : (bitEntry entryIds data).valueSet = carries 3 data := by
  rw [bitEntry, valueSet_foldl, Bool.false_or, carries]

/-- The line of an entry says on when the entry carries the value flag. -/
theorem wholeAttrText_bit {all : Option FamilyOverlay} (schema : BitsetSchema all) (depth : Nat)
    {bit : Bytes} (type : attrType bit = 1) :
    wholeAttrText (some bitsetBitsSet) all depth bit =
      indentText depth ++ bitLine (bitEntry entryIds (payload bit)).idx
        (bitEntry entryIds (payload bit)).name (carries 3 (payload bit)) := by
  have name : attrSetLookupName (some bitsetBitsSet) (1 : UInt16).toUInt32 = some (lit "BIT") := by
    decide +kernel
  have resolved : resolveAlias (some (lit "BITSET_BITS")) (lit "BIT") = some (lit "BITSET_BIT") := by
    decide +kernel
  have child : childSetOf all (some bitsetBitsSet) (some (lit "BIT")) = some bitsetBitSet := by
    show (findAttrSet all (lit "BIT")).orElse (fun _ =>
      (resolveAlias (some (lit "BITSET_BITS")) (lit "BIT")).bind (findAttrSet all)) = _
    rw [schema.noBit, resolved]
    exact schema.bit
  have compact := compactText_of_bit depth (payload bit) (by decide +kernel) bitIds_bitsetBitSet
  rw [wholeAttrText, attrText, type, name]
  simp only [child, namedText, compact, Option.isSome_some, or_true, if_true, Option.getD_some,
    valueSet_bitEntry]

/-- The text of the nest with the entries follows its heading. -/
theorem wholeAttrText_bits {all : Option FamilyOverlay} (schema : BitsetSchema all) (depth : Nat)
    {f : Bytes} (type : attrType f = 3) :
    wholeAttrText (some bitsetSet) all depth f =
      indentText depth ++ (lit "BITS:\n" ++
        streamText (some bitsetBitsSet) all (depth + 1) (payload f)) := by
  have name : attrSetLookupName (some bitsetSet) (3 : UInt16).toUInt32 = some (lit "BITS") := by
    decide +kernel
  have resolved : resolveAlias (some (lit "BITSET")) (lit "BITS") = some (lit "BITSET_BITS") := by
    decide +kernel
  have child : childSetOf all (some bitsetSet) (some (lit "BITS")) = some bitsetBitsSet := by
    show (findAttrSet all (lit "BITS")).orElse (fun _ =>
      (resolveAlias (some (lit "BITSET")) (lit "BITS")).bind (findAttrSet all)) = _
    rw [schema.noBits, resolved]
    exact schema.bits
  have compact := compactText_of_not_bit depth (payload f)
    (show bitsetBitsSet.setName ≠ lit "BITSET_BIT" by decide +kernel)
  rw [wholeAttrText, attrText, type, name]
  simp only [child, namedText, compact, Option.isSome_some, or_true, if_true, Option.getD_none,
    Option.getD_some]
  rfl

/-- **What is printed for a bit set says on for the entries with the value flag.** -/
theorem streamText_bitset {all : Option FamilyOverlay} (schema : BitsetSchema all) (depth : Nat)
    (data : Bytes) :
    streamText (some bitsetSet) all depth data =
      bitsetText (fun bit => carries 3 (payload bit)) all depth data := by
  rw [streamText_eq, bitsetText]
  congr 1
  funext f
  unfold bitsetPiece
  split
  · next bits =>
      rw [wholeAttrText_bits schema depth bits, streamText_eq, bitsText]
      congr 3
      funext bit
      unfold bitPiece
      split
      · next type => exact wholeAttrText_bit schema (depth + 1) type
      · rfl
  · rfl

/-! ## When it is right -/

section Lengths

variable {α : Type} {f g : α → Bytes} {xs : List α}

/-- Parts that are no longer are no longer together. -/
theorem length_flatMap_le (shorter : ∀ x ∈ xs, (g x).length ≤ (f x).length) :
    (xs.flatMap g).length ≤ (xs.flatMap f).length := by
  rw [List.length_flatMap, List.length_flatMap]
  exact List.sum_le_sum shorter

/-- Parts that are no longer, and together as long, are as long each. -/
theorem length_eq_of_flatMap (shorter : ∀ x ∈ xs, (g x).length ≤ (f x).length)
    (same : (xs.flatMap g).length = (xs.flatMap f).length) {x : α} (member : x ∈ xs) :
    (g x).length = (f x).length := by
  by_contra differs
  have less := List.sum_lt_sum (fun x => (g x).length) (fun x => (f x).length) shorter
    ⟨x, member, lt_of_le_of_ne (shorter x member) differs⟩
  rw [List.length_flatMap, List.length_flatMap] at same
  omega

end Lengths

section Shown

variable {shown shown' : Bytes → Bool} (all : Option FamilyOverlay) (depth : Nat)

theorem length_bitLine (idx : Option Nat) (name : Option CStr) :
    (bitLine idx name true).length < (bitLine idx name false).length := by
  have on : (lit "on").length = 2 := rfl
  have off : (lit "off").length = 3 := rfl
  simp only [bitLine, List.length_append, if_true, Bool.false_eq_true, if_false, on, off]
  omega

/-- A line that says on where the other does is no longer. -/
theorem length_bitLine_le (idx : Option Nat) (name : Option CStr) {on on' : Bool}
    (more : on = true → on' = true) :
    (bitLine idx name on').length ≤ (bitLine idx name on).length := by
  have less := length_bitLine idx name
  cases on with
  | true => rw [more rfl]
  | false =>
      cases on' with
      | true => exact le_of_lt less
      | false => exact le_refl _

theorem length_bitPiece_le (more : ∀ bit, shown bit = true → shown' bit = true) (bit : Bytes) :
    (bitPiece shown' all depth bit).length ≤ (bitPiece shown all depth bit).length := by
  unfold bitPiece
  split
  · rw [List.length_append, List.length_append]
    have := length_bitLine_le (bitEntry entryIds (payload bit)).idx
      (bitEntry entryIds (payload bit)).name (more bit)
    omega
  · exact le_refl _

theorem eq_of_length_bitPiece {bit : Bytes} (type : attrType bit = 1)
    (same : (bitPiece shown' all depth bit).length = (bitPiece shown all depth bit).length) :
    shown bit = shown' bit := by
  have less := length_bitLine (bitEntry entryIds (payload bit)).idx
    (bitEntry entryIds (payload bit)).name
  rw [bitPiece, bitPiece, if_pos type, if_pos type, List.length_append, List.length_append] at same
  cases one : shown bit <;> cases other : shown' bit <;> rw [one, other] at same
  · omega
  · omega

theorem length_bitsetPiece_le (more : ∀ bit, shown bit = true → shown' bit = true) (f : Bytes) :
    (bitsetPiece shown' all depth f).length ≤ (bitsetPiece shown all depth f).length := by
  unfold bitsetPiece
  split
  · have : (bitsText shown' all (depth + 1) (payload f)).length ≤
        (bitsText shown all (depth + 1) (payload f)).length :=
      length_flatMap_le fun bit _ => length_bitPiece_le all (depth + 1) more bit
    simp only [List.length_append]
    omega
  · exact le_refl _

/-- Two texts of a bit set, one of which says on where the other does, are the same exactly
when they say the same of every entry. -/
theorem bitsetText_eq_iff (more : ∀ bit, shown bit = true → shown' bit = true) (data : Bytes) :
    bitsetText shown all depth data = bitsetText shown' all depth data ↔
      ∀ bit ∈ listedBits data, shown bit = shown' bit := by
  constructor
  · intro same bit listed
    obtain ⟨f, member, inside⟩ := List.mem_flatMap.mp listed
    obtain ⟨first, bits⟩ := List.mem_filter.mp member
    obtain ⟨second, type⟩ := List.mem_filter.mp inside
    have piece := length_eq_of_flatMap (fun f _ => length_bitsetPiece_le all depth more f)
      (congrArg List.length same).symm first
    rw [bitsetPiece, bitsetPiece, if_pos (by simpa using bits), if_pos (by simpa using bits)] at piece
    simp only [List.length_append] at piece
    have line := length_eq_of_flatMap (fun bit _ => length_bitPiece_le all (depth + 1) more bit)
      (show (bitsText shown' all (depth + 1) (payload f)).length =
        (bitsText shown all (depth + 1) (payload f)).length by omega) second
    exact eq_of_length_bitPiece all (depth + 1) (by simpa using type) line
  · intro same
    refine List.flatMap_congr ?_
    intro f first
    unfold bitsetPiece
    split
    · next bits =>
        congr 2
        refine List.flatMap_congr ?_
        intro bit second
        unfold bitPiece
        split
        · next type =>
            rw [same bit (List.mem_flatMap.mpr ⟨f, List.mem_filter.mpr ⟨first, by simpa using bits⟩,
              List.mem_filter.mpr ⟨second, by simpa using type⟩⟩)]
        · rfl
    · rfl

end Shown

/-- **The line printed for each entry of a bit set says on exactly when its bit is set, if
and only if the bit set does not carry `NOMASK` or all its entries carry the value flag.** -/
theorem bitset_lines_iff (mem : Mem) (first : Nat) (data : Bytes) {all : Option FamilyOverlay}
    (schema : BitsetSchema all) (depth : Nat) :
    textOf (renderAttrsRecursive (mem.place data first) first data.length (some bitsetSet) all
        depth) = bitsetText (bitIsSet data) all depth data ↔
      carries 1 data = false ∨ ∀ bit ∈ listedBits data, carries 3 (payload bit) = true := by
  rw [textOf_renderAttrsRecursive, Int.toNat_natCast, Mem.slice_place, streamText_bitset schema,
    bitsetText_eq_iff all depth (fun bit value => by rw [bitIsSet, value, Bool.or_true]) data]
  cases noMask : carries 1 data with
  | false => simp [bitIsSet, noMask]
  | true => simp [bitIsSet, noMask]

/-- An overlay with the sets of bit sets. -/
def bitsetOverlay : FamilyOverlay :=
  { FamilyOverlay.zero with attrSets := ⟨[bitsetSet, bitsetBitSet, bitsetBitsSet], 16⟩ }

theorem bitsetOverlay_schema : BitsetSchema (some bitsetOverlay) where
  bits := rfl
  bit := rfl
  noBits := rfl
  noBit := rfl

/-- An entry with an index, a name and more attributes. -/
def entryAttr (idx : UInt32) (name : CStr) (more : List Bytes) : Bytes :=
  attr 1 (Framing.encode (attr 1 (bytes32 idx) :: attr 2 (name ++ [0]) :: more))

/-- Two set bits of three, with a mask. -/
def maskedBits : Bytes :=
  Framing.encode [attr 3 (Framing.encode [entryAttr 0 (lit "drv") [attr 3 []],
    entryAttr 1 (lit "probe") [], entryAttr 2 (lit "link") [attr 3 []]])]

/-- The two set bits, without a mask. -/
def noMaskBits : Bytes :=
  Framing.encode [attr 1 [], attr 3 (Framing.encode
    [entryAttr 0 (lit "drv") [], entryAttr 2 (lit "link") []])]

/-- The bits with a mask are printed right. -/
theorem maskedBits_printed :
    textOf (renderAttrsRecursive (Mem.place (fun _ => 0) maskedBits 0) 0 maskedBits.length
        (some bitsetSet) (some bitsetOverlay) 1) =
      bitsetText (bitIsSet maskedBits) (some bitsetOverlay) 1 maskedBits :=
  (bitset_lines_iff (fun _ => 0) 0 maskedBits bitsetOverlay_schema 1).mpr (.inl (by decide +kernel))

/-- The bits without a mask are all set, and are printed as off. -/
theorem noMaskBits_printed_off :
    (∀ bit ∈ listedBits noMaskBits, bitIsSet noMaskBits bit = true) ∧
      textOf (renderAttrsRecursive (Mem.place (fun _ => 0) noMaskBits 0) 0 noMaskBits.length
          (some bitsetSet) (some bitsetOverlay) 1) =
        lit ("  NOMASK = (flag, no payload)\n" ++ "  BITS:\n" ++ "    [  0] drv = off\n" ++
          "    [  2] link = off\n") ∧
      textOf (renderAttrsRecursive (Mem.place (fun _ => 0) noMaskBits 0) 0 noMaskBits.length
          (some bitsetSet) (some bitsetOverlay) 1) ≠
        bitsetText (bitIsSet noMaskBits) (some bitsetOverlay) 1 noMaskBits := by
  refine ⟨by decide +kernel, by decide +kernel, by decide +kernel⟩

end Ykern.Genl
