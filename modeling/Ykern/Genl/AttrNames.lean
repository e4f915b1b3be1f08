import Ykern.Genl.RequestEncoding

/-!
# Attributes by name, packed and read

An attribute is packed under the identifier that its set has for the name, and read under
the name that the set has for the identifier. The loader accepts identifiers of 32 bits, a
type has 16, and the reader keeps 14 of these and takes one of the others for the mark of a
nest. So a name is read back exactly when its identifier has 14 bits (`readsBack_iff`).
-/

set_option autoImplicit false

namespace Ykern.Genl

open Overlay Netlink

/-- A number or a string is appended as an attribute of this type. -/
def Packs (b : AttrBuf) (type : UInt16) (b' : AttrBuf) : Prop :=
  (∃ v, abU32 b type v = some b') ∨ ∃ s, abString b type s = some b'

/-- The type of an attribute that was appended is read from where it begins. -/
theorem Packs.rawTypeAt_eq {b b' : AttrBuf} {type : UInt16} (packs : Packs b type b') :
    rawTypeAt b'.data b.off = type := by
  obtain ⟨value, appended⟩ : ∃ value, abAttr b type value = some b' := by
    rcases packs with ⟨v, appended⟩ | ⟨s, appended⟩
    · exact ⟨_, appended⟩
    · exact ⟨_, appended⟩
  simp only [abAttr] at appended
  split at appended
  · obtain rfl := Option.some.inj appended
    have placed : (b.data.place (bytes16 (UInt16.ofNat (4 + value.length)) ++ bytes16 type)
        b.off).place value (b.off + 4) = b.data.place (attr type value) b.off :=
      Mem.place_append b.data _ value b.off
    have stored := Mem.slice_place b.data (attr type value) b.off
    have long : 2 + 2 ≤ (attr type value).length := by
      rw [length_attr]
      omega
    show (Mem.place _ value (b.off + 4)).load16 (b.off + 2) = type
    rw [placed, ← field16_slice _ _ _ long, stored]
    exact word16_bytes16 type
  · cases appended

/-- Whatever is packed under the name of an attribute is read under this name, and not as a
nest. -/
def ReadsBack (set : AttrSetOverlay) (name : CStr) : Prop :=
  ∃ id, attrSetLookupId set name = some id ∧
    ∀ b b' : AttrBuf, Packs b id.toUInt16 b' →
      attrSetLookupName (some set) (rawTypeAt b'.data b.off &&& nlaTypeMask).toUInt32 =
          some name ∧
        rawTypeAt b'.data b.off &&& nlaFNested = 0

/-- Below 2^14 a type has no flags. -/
theorem and_nlaFNested_of_small {type : UInt16} (small : type.toNat < 2 ^ 14) :
    type &&& nlaFNested = 0 := by
  have flag : nlaFNested.toNat = 2 ^ 15 := by decide
  apply UInt16.toNat_inj.mp
  rw [UInt16.toNat_and, flag, Nat.and_two_pow, Nat.testBit_lt_two_pow (by omega)]
  rfl

/-- **A name is read back exactly when its identifier has 14 bits.** -/
theorem readsBack_iff (set : AttrSetOverlay) (ids : (set.attrs.items.map (·.attrId)).Nodup)
    (names : (set.attrs.items.filterMap (·.name)).Nodup) {a : AttrOverlay} (member : a ∈ set.attrs.items)
    {name : CStr} (named : a.name = some name) :
    ReadsBack set name ↔ a.attrId.toNat < 2 ^ 14 := by
  have lookup : attrSetLookupId set name = some a.attrId := by
    rw [attrSetLookupId, (find?_key_eq_some_iff (uniqueAt_of_nodup_filterMap names name)).mpr
      ⟨member, named⟩, Option.map_some]
  have byName (id : UInt32) :
      attrSetLookupName (some set) id = some name ↔ id = a.attrId := by
    rw [attrSetLookupName, Option.bind_some, Option.bind_eq_some_iff]
    constructor
    · rintro ⟨a', found, named'⟩
      obtain ⟨member', isId⟩ := (find?_key_eq_some_iff (uniqueAt_of_nodup ids id)).mp found
      rw [← isId, uniqueAt_of_nodup_filterMap names name a' member' a member named' named]
    · rintro rfl
      exact ⟨a, (find?_key_eq_some_iff (uniqueAt_of_nodup ids a.attrId)).mpr ⟨member, rfl⟩, named⟩
  have masked : (a.attrId.toUInt16 &&& nlaTypeMask).toUInt32 = a.attrId ↔
      a.attrId.toNat < 2 ^ 14 := by
    rw [← UInt32.toNat_inj, UInt16.toNat_toUInt32, toNat_toUInt16_and_nlaTypeMask]
    omega
  constructor
  · rintro ⟨id, lookup', reads⟩
    obtain rfl := Option.some.inj (lookup.symm.trans lookup')
    obtain ⟨b', packed⟩ : ∃ b', abU32 ⟨fun _ => 0, 0, 8⟩ a.attrId.toUInt16 0 = some b' := ⟨_, rfl⟩
    have packs : Packs _ a.attrId.toUInt16 b' := .inl ⟨0, packed⟩
    have read := (reads _ b' packs).1
    rw [packs.rawTypeAt_eq, byName, masked] at read
    exact read
  · intro small
    refine ⟨a.attrId, lookup, ?_⟩
    intro b b' packs
    rw [packs.rawTypeAt_eq]
    refine ⟨(byName _).mpr (masked.mpr small), and_nlaFNested_of_small ?_⟩
    rw [UInt32.toNat_toUInt16]
    omega

/-- A set as it is loaded, of which one identifier is the other with a flag. -/
def aliasedAttrs : AttrSetOverlay :=
  ⟨lit "ATTRS", ⟨[attrRow ⟨lit "1", [(lit "name", lit "FIRST")]⟩,
    attrRow ⟨lit "16385", [(lit "name", lit "SECOND")]⟩], 16⟩⟩

/-- The first of its names is read back. -/
theorem first_readsBack : ReadsBack aliasedAttrs (lit "FIRST") := by
  have loaded : aliasedAttrs.attrs.items =
      [⟨1, some (lit "FIRST"), none⟩, ⟨16385, some (lit "SECOND"), none⟩] := by decide +kernel
  refine (readsBack_iff aliasedAttrs ?_ ?_ (a := ⟨1, some (lit "FIRST"), none⟩) ?_ rfl).mpr
    (by decide)
  · rw [loaded]
    decide
  · rw [loaded]
    decide
  · rw [loaded]
    exact List.mem_cons_self

/-- What is packed under the second is read under the first. -/
theorem second_reads_first :
    ¬ReadsBack aliasedAttrs (lit "SECOND") ∧
      attrSetLookupId aliasedAttrs (lit "SECOND") = some 16385 ∧
      ∀ b b' : AttrBuf, Packs b (16385 : UInt32).toUInt16 b' →
        attrSetLookupName (some aliasedAttrs) (rawTypeAt b'.data b.off &&& nlaTypeMask).toUInt32 =
          some (lit "FIRST") := by
  have lookup : attrSetLookupId aliasedAttrs (lit "SECOND") = some 16385 := by decide +kernel
  have first : attrSetLookupName (some aliasedAttrs)
      ((16385 : UInt32).toUInt16 &&& nlaTypeMask).toUInt32 = some (lit "FIRST") := by
    decide +kernel
  have reads (b b' : AttrBuf) (packs : Packs b (16385 : UInt32).toUInt16 b') :
      attrSetLookupName (some aliasedAttrs) (rawTypeAt b'.data b.off &&& nlaTypeMask).toUInt32 =
        some (lit "FIRST") := by
    rw [packs.rawTypeAt_eq, first]
  refine ⟨?_, lookup, reads⟩
  rintro ⟨id, lookup', back⟩
  obtain rfl := Option.some.inj (lookup.symm.trans lookup')
  obtain ⟨b', packed⟩ :
      ∃ b', abU32 ⟨fun _ => 0, 0, 8⟩ (16385 : UInt32).toUInt16 0 = some b' := ⟨_, rfl⟩
  have read := (back _ b' (.inl ⟨0, packed⟩)).1
  rw [reads _ b' (.inl ⟨0, packed⟩)] at read
  exact absurd read (by decide)

end Ykern.Genl
