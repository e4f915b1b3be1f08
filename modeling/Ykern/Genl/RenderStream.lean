import Ykern.Genl.RenderMeaning

/-!
# Rendering one attribute after another

Rendering carries nothing from one attribute to the next: each of the ways in which an
attribute is rendered ends behind its padding. So the text of attributes in front of any
bytes is the text of the attributes and the text of these bytes, and the text of a buffer
is that of its attributes, each rendered alone (`rendered_concat`). The payload of an
attribute with a set is such a buffer again.
-/

set_option autoImplicit false

namespace Ykern.Genl

open Overlay Netlink

/-- What rendering appends for a buffer of these bytes. -/
def rendered (set : Option AttrSetOverlay) (all : Option FamilyOverlay) (depth : Nat)
    (bs : Bytes) : Bytes :=
  textOf (renderAttrsRecursive (Mem.place (fun _ => 0) bs 0) 0 bs.length set all depth)

section Stream

variable (set : Option AttrSetOverlay) (all : Option FamilyOverlay) (depth : Nat)

theorem rendered_eq (bs : Bytes) : rendered set all depth bs = streamText set all depth bs := by
  rw [rendered, textOf_renderAttrsRecursive, Int.toNat_natCast, Mem.slice_place]

/-- It does not matter where the bytes are. -/
theorem textOf_eq_rendered (mem : Mem) (first : Nat) (totalLen : Int) :
    textOf (renderAttrsRecursive mem first totalLen set all depth) =
      rendered set all depth (mem.slice first totalLen.toNat) := by
  rw [rendered_eq, textOf_renderAttrsRecursive]

/-- An attribute alone. -/
theorem rendered_frame {f : Bytes} (isFrame : nla.IsFrame f) :
    rendered set all depth f = wholeAttrText set all depth f := by
  have alone := Framing.frames_last isFrame (show ([] : Bytes).length ≤ _ from Nat.zero_le _)
  rw [List.append_nil] at alone
  rw [rendered_eq, streamText_eq, alone, List.flatMap_singleton]

/-- The text of bytes is that of the attributes in them, each rendered alone. -/
theorem rendered_eq_flatMap (bs : Bytes) :
    rendered set all depth bs = (nla.frames bs).flatMap (rendered set all depth) := by
  rw [rendered_eq, streamText_eq]
  apply List.flatMap_congr
  intro f member
  exact (rendered_frame set all depth (Framing.isFrame_of_mem_frames member)).symm

/-- The text of padded attributes in front of any bytes. -/
theorem rendered_append {us : List Bytes} (padded : ∀ u ∈ us, nla.IsPadded u) (b : Bytes) :
    rendered set all depth (us.flatten ++ b) =
      rendered set all depth us.flatten ++ rendered set all depth b := by
  have first := Framing.frames_flatten_append padded ([] : Bytes)
  rw [List.append_nil, Framing.frames_nil, List.append_nil] at first
  rw [rendered_eq_flatMap, Framing.frames_flatten_append padded b, ← first, List.flatMap_append,
    ← rendered_eq_flatMap, ← rendered_eq_flatMap]

/-- An attribute with a set is a heading and the attributes of its payload, each rendered
alone with that set, unless it is an entry of a bit set. -/
theorem rendered_nested {f : Bytes} (isFrame : nla.IsFrame f) {name : CStr} {child : AttrSetOverlay}
    (named : attrSetLookupName set (attrType f).toUInt32 = some name)
    (known : childSetOf all set (some name) = some child)
    (entry : compactText (some child) depth (payload f) = none) :
    rendered set all depth f = indentText depth ++ (name ++ lit ":\n") ++
      (nla.frames (payload f)).flatMap (rendered (some child) all (depth + 1)) := by
  rw [rendered_frame set all depth isFrame, ← rendered_eq_flatMap, rendered_eq, wholeAttrText,
    attrText, named, known, namedText, if_pos (.inr rfl), entry, Option.getD_none,
    Option.getD_some, ← List.append_assoc]

/-- **The text of attributes in front of any bytes is their text and the text of the bytes**,
and the text of a buffer is that of its attributes in order and once each, at every level
with a set. -/
theorem rendered_concat :
    (∀ (us : List Bytes) (b : Bytes), (∀ u ∈ us, nla.IsPadded u) →
        rendered set all depth (us.flatten ++ b) =
          rendered set all depth us.flatten ++ rendered set all depth b) ∧
      (∀ (mem : Mem) (first : Nat) (totalLen : Int),
        textOf (renderAttrsRecursive mem first totalLen set all depth) =
          (nla.frames (mem.slice first totalLen.toNat)).flatMap (rendered set all depth)) ∧
      ∀ (f : Bytes) (name : CStr) (child : AttrSetOverlay), nla.IsFrame f →
        attrSetLookupName set (attrType f).toUInt32 = some name →
        childSetOf all set (some name) = some child →
        compactText (some child) depth (payload f) = none →
        rendered set all depth f = indentText depth ++ (name ++ lit ":\n") ++
          (nla.frames (payload f)).flatMap (rendered (some child) all (depth + 1)) := by
  refine ⟨?_, ?_, ?_⟩
  · intro us b padded
    exact rendered_append set all depth padded b
  · intro mem first totalLen
    rw [textOf_eq_rendered, rendered_eq_flatMap]
  · intro f name child isFrame named known entry
    exact rendered_nested set all depth isFrame named known entry

end Stream

/-- Two attributes, of which the first is padded, and bytes that are none. -/
theorem rendered_two :
    rendered none none 1 ([[5, 0, 1, 0, 7, 0, 0, 0], [4, 0, 2, 0]].flatten ++ [9, 9]) =
      rendered none none 1 [[5, 0, 1, 0, 7, 0, 0, 0], [4, 0, 2, 0]].flatten ++
        rendered none none 1 [9, 9] := by
  apply (rendered_concat none none 1).1 _ _
  intro u member
  rcases List.mem_pair.mp member with rfl | rfl
  · exact ⟨[5, 0, 1, 0, 7], [0, 0, 0], by decide, by decide, rfl⟩
  · exact ⟨[4, 0, 2, 0], [], by decide, by decide, rfl⟩

end Ykern.Genl
