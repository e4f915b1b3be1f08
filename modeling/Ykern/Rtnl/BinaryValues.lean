import Ykern.Rtnl.Render

/-!
# Attributes of bytes

An attribute of bytes is meant to be shown by its size: six bytes as a link layer address,
four or sixteen as an address of the internet, and any other number in hexadecimal. The
renderer looks at the name of the attribute first. Under a name of link layer addresses four
or sixteen bytes are shown in hexadecimal, and under any other name six bytes are
(`binaryValues_iff`). An address never looks like bytes in hexadecimal, as no parenthesis
is in it.
-/

set_option autoImplicit false

namespace Ykern.Rtnl

open Genl Netlink

/-- Bytes by their size, as the comment in `render_attr_value` has it. -/
def binaryText (p : Bytes) : Bytes :=
  if p.length = 6 then renderMac p
  else if p.length = 4 ∨ p.length = 16 then renderIp p
  else renderBytes p

/-! ## The characters of addresses -/

theorem paren_mem_renderBytes (p : Bytes) : charByte '(' ∈ renderBytes p := by
  rw [renderBytes, List.append_assoc, List.append_assoc]
  exact List.mem_append_left _ (by decide)

/-- The characters of addresses. -/
def addressChars : Bytes := hexDigits ++ lit ".:"

section Addresses

variable {c : UInt8} (other : c ∉ addressChars)

include other

theorem notMem_hexDigits : c ∉ hexDigits := fun member => other (List.mem_append_left _ member)

theorem notMem_inetNtop4 (p : Bytes) : c ∉ inetNtop4 p := by
  apply notMem_intercalate
  · exact fun member => other (List.mem_singleton.mp member ▸ by decide)
  · intro x member
    obtain ⟨b, _, rfl⟩ := List.mem_map.mp member
    exact notMem_decimal (notMem_hexDigits other) b.toNat

theorem notMem_colon (first : Prop) [Decidable first] (text : Bytes) (plain : c ∉ text) :
    c ∉ (if first then text else lit ":") ∧ c ∉ (if first then lit ":" else text) := by
  have colon : c ∉ lit ":" := fun member => other (List.mem_singleton.mp member ▸ by decide)
  split
  · exact ⟨plain, colon⟩
  · exact ⟨colon, plain⟩

theorem notMem_ipv6Text (p : Bytes) (groups : List Nat) (run : Option ZeroRun) (i : Nat)
    (rest : List Nat) : c ∉ ipv6Text p groups run i rest := by
  have colon (first : Prop) [Decidable first] := notMem_colon other first [] List.not_mem_nil
  induction rest generalizing i with
  | nil => simp [ipv6Text]
  | cons g rest ih =>
      have group := notMem_append (notMem_hex (notMem_hexDigits other) g) (ih (i + 1))
      unfold ipv6Text
      split
      · split
        · exact notMem_append (colon _).2 (ih (i + 1))
        · refine notMem_append (colon _).1 ?_
          split
          · exact notMem_inetNtop4 other _
          · exact group
      · rw [List.append_assoc]
        exact notMem_append (colon _).1 group

theorem notMem_inetNtop6 (p : Bytes) : c ∉ inetNtop6 p := by
  have colon (first : Prop) [Decidable first] := notMem_colon other first [] List.not_mem_nil
  exact notMem_append (notMem_ipv6Text other p _ _ 0 _) (colon _).2

/-- A link layer address. -/
theorem notMem_renderMac {p : Bytes} (length : p.length = 6) : c ∉ renderMac p := by
  rw [renderMac, if_neg (not_not.mpr length)]
  apply notMem_intercalate
  · exact fun member => other (List.mem_singleton.mp member ▸ by decide)
  · intro x member
    obtain ⟨b, _, rfl⟩ := List.mem_map.mp member
    exact notMem_hexField (notMem_hexDigits other) 2 b.toNat

/-- An address of the internet. -/
theorem notMem_renderIp {p : Bytes} (length : p.length = 4 ∨ p.length = 16) : c ∉ renderIp p := by
  unfold renderIp
  split
  · exact notMem_inetNtop4 other p
  · next no =>
      rw [if_pos (length.resolve_left no)]
      exact notMem_inetNtop6 other p

end Addresses

theorem renderBytes_ne {p text : Bytes} (free : charByte '(' ∉ text) : renderBytes p ≠ text := by
  rintro rfl
  exact free (paren_mem_renderBytes p)

/-! ## Values by name -/

/-- Under a name of link layer addresses. -/
theorem renderAttrValue_mac {a : RtnlAttr} (binary : a.kind = .bin) (mac : a.name ∈ macNames)
    (p : Bytes) : renderAttrValue (some a) p = renderMac p := by
  simp [renderAttrValue, binary, mac]

/-- Under any other name. -/
theorem renderAttrValue_other {a : RtnlAttr} (binary : a.kind = .bin) (other : a.name ∉ macNames)
    (p : Bytes) : renderAttrValue (some a) p =
      if p.length = 4 ∨ p.length = 16 then renderIp p else renderBytes p := by
  simp [renderAttrValue, binary, other]

/-- A name of link layer addresses makes a difference for the sizes of addresses. -/
theorem names_agree_iff (p : Bytes) :
    renderMac p = (if p.length = 4 ∨ p.length = 16 then renderIp p else renderBytes p) ↔
      p.length ≠ 4 ∧ p.length ≠ 6 ∧ p.length ≠ 16 := by
  by_cases six : p.length = 6
  · have bytes : ¬(p.length = 4 ∨ p.length = 16) := by omega
    rw [if_neg bytes]
    exact iff_of_false (renderBytes_ne (notMem_renderMac (by decide) six)).symm (by omega)
  · rw [renderMac, if_pos six]
    by_cases ip : p.length = 4 ∨ p.length = 16
    · rw [if_pos ip]
      exact iff_of_false (renderBytes_ne (notMem_renderIp (by decide) ip)) (by omega)
    · rw [if_neg ip]
      exact iff_of_true rfl (by omega)

/-- The value is that of its size. -/
theorem renderAttrValue_eq_binaryText_iff {a : RtnlAttr} (binary : a.kind = .bin) (p : Bytes) :
    renderAttrValue (some a) p = binaryText p ↔
      (a.name ∈ macNames → p.length ≠ 4 ∧ p.length ≠ 16) ∧ (a.name ∉ macNames → p.length ≠ 6) := by
  by_cases mac : a.name ∈ macNames
  · rw [renderAttrValue_mac binary mac, binaryText]
    by_cases six : p.length = 6
    · rw [if_pos six]
      exact iff_of_true rfl ⟨fun _ => by omega, fun other => absurd mac other⟩
    · rw [if_neg six, names_agree_iff]
      constructor
      · rintro ⟨four, _, sixteen⟩
        exact ⟨fun _ => ⟨four, sixteen⟩, fun other => absurd mac other⟩
      · rintro ⟨sizes, _⟩
        exact ⟨(sizes mac).1, six, (sizes mac).2⟩
  · rw [renderAttrValue_other binary mac, binaryText]
    by_cases six : p.length = 6
    · rw [if_pos six, eq_comm, names_agree_iff]
      exact iff_of_false (fun sizes => sizes.2.1 six) (fun sizes => sizes.2 mac six)
    · rw [if_neg six]
      exact iff_of_true rfl ⟨fun isMac => absurd isMac mac, fun _ => six⟩

/-- Two attributes with the same payload show the same value. -/
theorem renderAttrValue_eq_iff {a b : RtnlAttr} (binary : a.kind = .bin) (binary' : b.kind = .bin)
    (p : Bytes) :
    renderAttrValue (some a) p = renderAttrValue (some b) p ↔
      (a.name ∈ macNames ↔ b.name ∈ macNames) ∨
        p.length ≠ 4 ∧ p.length ≠ 6 ∧ p.length ≠ 16 := by
  by_cases mac : a.name ∈ macNames
  · by_cases mac' : b.name ∈ macNames
    · rw [renderAttrValue_mac binary mac, renderAttrValue_mac binary' mac']
      exact iff_of_true rfl (.inl (iff_of_true mac mac'))
    · rw [renderAttrValue_mac binary mac, renderAttrValue_other binary' mac', names_agree_iff]
      exact (or_iff_right fun same => mac' (same.mp mac)).symm
  · by_cases mac' : b.name ∈ macNames
    · rw [renderAttrValue_other binary mac, renderAttrValue_mac binary' mac', eq_comm,
        names_agree_iff]
      exact (or_iff_right fun same => mac (same.mpr mac')).symm
    · rw [renderAttrValue_other binary mac, renderAttrValue_other binary' mac']
      exact iff_of_true rfl (.inl (iff_of_false mac mac'))

/-! ## Values in a dump -/

/-- No identifier stands twice in a table. -/
theorem rtnlAttrLookup_of_mem {op : RtnlOp} {a : RtnlAttr} (member : a ∈ (rtnlOps op).attrs) :
    rtnlAttrLookup (rtnlOps op).attrs a.id = some a := by
  revert a
  cases op <;> decide

/-- An attribute of a table is shown with its name and its value. -/
theorem renderRtnlAttr_of_mem {op : RtnlOp} {a : RtnlAttr} (member : a ∈ (rtnlOps op).attrs)
    {na : Bytes} (typed : attrType na = a.id) :
    renderRtnlAttr (rtnlOps op).attrs na =
      lit "  " ++ a.name ++ lit " = " ++ renderAttrValue (some a) (payload na) ++ lit "\n" := by
  rw [renderRtnlAttr, typed, rtnlAttrLookup_of_mem member]
  simp

/-- **When attributes of bytes are shown by their size.** An attribute of a table is shown in
a dump as its name and its value. The value is that of the size exactly when it has neither
four nor sixteen bytes under a name of link layer addresses, and not six under another; two
attributes of a table with the same payload show the same exactly when both names are of this
kind or neither is, or the size is not that of an address. -/
theorem binaryValues_iff (op : RtnlOp) (a : RtnlAttr) (member : a ∈ (rtnlOps op).attrs)
    (binary : a.kind = .bin) (p : Bytes) :
    (renderAttrValue (some a) p = binaryText p ↔
        (a.name ∈ macNames → p.length ≠ 4 ∧ p.length ≠ 16) ∧
          (a.name ∉ macNames → p.length ≠ 6)) ∧
      (∀ b ∈ (rtnlOps op).attrs, b.kind = .bin →
        (renderAttrValue (some a) p = renderAttrValue (some b) p ↔
          (a.name ∈ macNames ↔ b.name ∈ macNames) ∨
            p.length ≠ 4 ∧ p.length ≠ 6 ∧ p.length ≠ 16)) ∧
      ∀ na, attrType na = a.id → payload na = p →
        renderRtnlAttr (rtnlOps op).attrs na =
          lit "  " ++ a.name ++ lit " = " ++ renderAttrValue (some a) p ++ lit "\n" := by
  refine ⟨renderAttrValue_eq_binaryText_iff binary p, ?_, ?_⟩
  · intro b _ binary'
    exact renderAttrValue_eq_iff binary binary' p
  · rintro na typed rfl
    exact renderRtnlAttr_of_mem member typed

/-- An address of an interface and a payload of four bytes. -/
theorem ifaAddress_values :
    ¬renderAttrValue (some ⟨1, lit "ADDRESS", .bin⟩) [127, 0, 0, 1] = binaryText [127, 0, 0, 1] := by
  have values := (binaryValues_iff .getAddr ⟨1, lit "ADDRESS", .bin⟩ (by decide) rfl
    [127, 0, 0, 1]).1
  rw [values]
  intro sizes
  exact (sizes.1 (by decide)).1 rfl

/-- **The address and the local address of an interface are shown differently**, though
their payloads are the same. -/
theorem ifaAddress_ne_ifaLocal :
    renderRtnlAttr (rtnlOps .getAddr).attrs [8, 0, 1, 0, 127, 0, 0, 1] =
        lit "  ADDRESS = (4 bytes) 7f 00 00 01\n" ∧
      renderRtnlAttr (rtnlOps .getAddr).attrs [8, 0, 2, 0, 127, 0, 0, 1] =
        lit "  LOCAL = 127.0.0.1\n" ∧
      ¬∀ (op : RtnlOp) (a b : RtnlAttr) (p : Bytes), a ∈ (rtnlOps op).attrs →
        b ∈ (rtnlOps op).attrs → a.kind = .bin → b.kind = .bin →
        renderAttrValue (some a) p = binaryText p ∧
          renderAttrValue (some a) p = renderAttrValue (some b) p := by
  refine ⟨by decide, by decide, ?_⟩
  intro bySize
  have same := (bySize .getAddr ⟨1, lit "ADDRESS", .bin⟩ ⟨2, lit "LOCAL", .bin⟩ [127, 0, 0, 1]
    (by decide) (by decide) rfl rfl).2
  exact absurd same (by decide)

end Ykern.Rtnl
