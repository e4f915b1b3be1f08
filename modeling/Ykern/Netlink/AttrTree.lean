import Ykern.Netlink.Wire

/-!
# Trees of attributes

The payload of an attribute may be attributes again. Which ones are such nests is not told by
the bytes but known to the reader: a nesting gives, for the place a reader is at and the type it
meets, the place at which it reads the payload (`Nesting`).

Reading with a nesting gives a tree whatever the bytes are (`readAttrs`), and what a tree is
sent as is read back as this tree when it follows the nesting and its attributes are short enough
for their headers (`readAttrs_bytes`).
-/

set_option autoImplicit false

namespace Ykern.Netlink

/-- Attributes in order: the first one, which has bytes or is a nest, and the others. Types are
as they are sent, with their flags. -/
inductive Attrs where
  | nil
  | value (type : UInt16) (data : Bytes) (others : Attrs)
  | nest (type : UInt16) (inner others : Attrs)
  deriving DecidableEq

/-- Where the payload of an attribute of this type is read, if it is a nest. -/
abbrev Nesting (σ : Type) := σ → UInt16 → Option σ

namespace Attrs

/-- The attributes as they are sent. -/
def frames : Attrs → List Bytes
  | nil => []
  | value type data others => attr type data :: others.frames
  | nest type inner others => attr type (Framing.encode inner.frames) :: others.frames

/-- The bytes attributes are sent as. -/
def bytes (attrs : Attrs) : Bytes := Framing.encode attrs.frames

/-- Every attribute fits the length in its header. -/
def Short : Attrs → Prop
  | nil => True
  | value _ data others => 4 + data.length < 2 ^ 16 ∧ others.Short
  | nest _ inner others => 4 + inner.bytes.length < 2 ^ 16 ∧ inner.Short ∧ others.Short

/-- The nests are those that the nesting tells. -/
def Follows {σ : Type} (nesting : Nesting σ) (s : σ) : Attrs → Prop
  | nil => True
  | value type _ others => nesting s type = none ∧ others.Follows nesting s
  | nest type inner others =>
      (∃ s', nesting s type = some s' ∧ inner.Follows nesting s') ∧ others.Follows nesting s

end Attrs

variable {σ : Type}

/-- The payload of the first attribute is shorter than the bytes. -/
theorem payload_lt {bs : Bytes} (fits : nla.Fits bs) :
    (payload (bs.take (nla.declared bs))).length < bs.length := by
  have header : nla.header = 4 := rfl
  obtain ⟨long, covers, within⟩ := fits
  rw [payload, List.length_drop, List.length_take]
  omega

/-- Read attributes. The bytes that are left when no attribute fits are passed over. -/
def readAttrs (nesting : Nesting σ) (s : σ) (bs : Bytes) : Attrs :=
  if _fits : nla.Fits bs then
    let f := bs.take (nla.declared bs)
    let others := readAttrs nesting s (bs.drop (align4 (nla.declared bs)))
    match nesting s (rawType f) with
    | none => .value (rawType f) (payload f) others
    | some s' => .nest (rawType f) (readAttrs nesting s' (payload f)) others
  else .nil
termination_by bs.length
decreasing_by
  · exact _fits.drop_lt
  · exact payload_lt _fits

theorem readAttrs_of_fits (nesting : Nesting σ) (s : σ) {bs : Bytes} (fits : nla.Fits bs) :
    readAttrs nesting s bs =
      match nesting s (rawType (bs.take (nla.declared bs))) with
      | none => .value (rawType (bs.take (nla.declared bs))) (payload (bs.take (nla.declared bs)))
          (readAttrs nesting s (bs.drop (align4 (nla.declared bs))))
      | some s' => .nest (rawType (bs.take (nla.declared bs)))
          (readAttrs nesting s' (payload (bs.take (nla.declared bs))))
          (readAttrs nesting s (bs.drop (align4 (nla.declared bs)))) := by
  rw [readAttrs, dif_pos fits]

theorem readAttrs_of_not_fits (nesting : Nesting σ) (s : σ) {bs : Bytes} (fits : ¬nla.Fits bs) :
    readAttrs nesting s bs = .nil := by
  rw [readAttrs, dif_neg fits]

theorem readAttrs_nil (nesting : Nesting σ) (s : σ) : readAttrs nesting s [] = .nil :=
  readAttrs_of_not_fits nesting s fun fits => absurd fits.1 (by decide)

/-- An attribute in front of bytes is read first. -/
theorem readAttrs_padded (nesting : Nesting σ) (s : σ) {f : Bytes} (isFrame : nla.IsFrame f)
    (rest : Bytes) : readAttrs nesting s (Framing.padded f ++ rest) =
      match nesting s (rawType f) with
      | none => .value (rawType f) (payload f) (readAttrs nesting s rest)
      | some s' => .nest (rawType f) (readAttrs nesting s' (payload f)) (readAttrs nesting s rest) := by
  have split : Framing.padded f ++ rest = f ++ (List.replicate (padding f.length) 0 ++ rest) := by
    rw [Framing.padded, List.append_assoc]
  have declared : nla.declared (Framing.padded f ++ rest) = f.length := by
    rw [split, isFrame.declared_append]
  have front : (Framing.padded f ++ rest).take f.length = f := by
    rw [split, List.take_left' rfl]
  have behind : (Framing.padded f ++ rest).drop (align4 f.length) = rest :=
    List.drop_left' (Framing.length_padded f)
  rw [readAttrs_of_fits nesting s (split ▸ isFrame.fits_append _)]
  simp only [declared, front, behind]

/-- **Attributes are read back** from the bytes they are sent as. -/
theorem readAttrs_bytes {nesting : Nesting σ} {s : σ} {attrs : Attrs} (short : attrs.Short)
    (follows : attrs.Follows nesting s) : readAttrs nesting s attrs.bytes = attrs := by
  induction attrs generalizing s with
  | nil => exact readAttrs_nil nesting s
  | value type data others ih =>
      obtain ⟨isShort, othersShort⟩ := short
      obtain ⟨isValue, othersFollow⟩ := follows
      rw [Attrs.bytes, Attrs.frames, Framing.encode_cons, ← Attrs.bytes,
        readAttrs_padded nesting s (attr_isFrame type isShort), rawType_attr, isValue, payload_attr]
      simp only [ih othersShort othersFollow]
  | nest type inner others ihInner ih =>
      obtain ⟨isShort, innerShort, othersShort⟩ := short
      obtain ⟨⟨s', isNest, innerFollows⟩, othersFollow⟩ := follows
      rw [Attrs.bytes, Attrs.frames, Framing.encode_cons, ← Attrs.bytes, ← Attrs.bytes,
        readAttrs_padded nesting s (attr_isFrame type isShort), rawType_attr, isNest, payload_attr]
      simp only [ih othersShort othersFollow, ihInner innerShort innerFollows]

end Ykern.Netlink
