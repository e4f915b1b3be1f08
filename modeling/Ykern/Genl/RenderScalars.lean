import Ykern.Foundation.Numerals
import Ykern.Genl.RenderStream

/-!
# What a rendered scalar says

A payload is shown in one of four forms: as a flag, as a string, as an unsigned number
whose width is noted behind it, or as a blob of which the first bytes are shown. The form is
read off the text (`readForm_scalarText`), also where a string contains what looks like
another form, and within a form the text is read backwards: a string and its size, a number,
and the size of a blob and the bytes shown. So nothing that is shown is lost
(`renderScalar_reads`).
-/

set_option autoImplicit false

namespace Ykern.Genl

open Overlay Netlink

/-! ## Bytes of a number, and bytes in hexadecimal -/

/-- Numbers of the same width are different when their bytes are. -/
theorem uintOf_injective {p q : Bytes} (width : p.length = q.length)
    (same : uintOf p = uintOf q) : p = q := by
  induction p generalizing q with
  | nil => exact (List.length_eq_zero_iff.mp width.symm).symm
  | cons low p ih =>
      obtain ⟨low', q, rfl⟩ := List.exists_cons_of_length_eq_add_one width.symm
      have first := low.toNat_lt
      have first' := low'.toNat_lt
      rw [uintOf, uintOf, List.foldr_cons, List.foldr_cons, ← uintOf, ← uintOf] at same
      have low_eq : low = low' := UInt8.toNat_inj.mp (by omega)
      have high_eq : p = q := ih (by simpa using width) (by omega)
      rw [low_eq, high_eq]

theorem length_hexField_byte (c : UInt8) : (hexField 2 c.toNat).length = 2 := by
  have short : (hex c.toNat).length ≤ 2 := by
    rw [hex, List.length_map]
    exact Nat.toDigits_length 16 c.toNat 2 (by decide) c.toNat_lt
  rw [hexField, padLeft, List.length_append, List.length_replicate]
  omega

/-- The text of the bytes of a blob. -/
def blobBytes (bs : Bytes) : Bytes := bs.flatMap fun c => lit " " ++ hexField 2 c.toNat

/-- As many bytes are read off their text. -/
theorem blobBytes_append_inj {p q : Bytes} {xs ys : Bytes} (length : p.length = q.length)
    (same : blobBytes p ++ xs = blobBytes q ++ ys) : p = q := by
  induction p generalizing q with
  | nil => exact (List.length_eq_zero_iff.mp length.symm).symm
  | cons c p ih =>
      obtain ⟨d, q, rfl⟩ := List.exists_cons_of_length_eq_add_one length.symm
      rw [blobBytes, blobBytes, List.flatMap_cons, List.flatMap_cons, ← blobBytes, ← blobBytes,
        List.append_assoc, List.append_assoc, List.append_assoc, List.append_assoc] at same
      have hexes := List.append_inj (List.append_cancel_left same)
        ((length_hexField_byte c).trans (length_hexField_byte d).symm)
      have byte : c = d := UInt8.toNat_inj.mp (padLeft_hex_injective hexes.1)
      have others : p = q := ih (by simpa using length) hexes.2
      rw [byte, others]

/-! ## Forms -/

/-- The forms in which a payload is shown. -/
inductive ScalarForm where
  | flag
  | string
  | uint (width : Nat)
  | blob
  deriving DecidableEq

/-- The form in which a payload is shown. -/
def scalarForm (data : Bytes) : ScalarForm :=
  if data = [] then .flag
  else if isString data then .string
  else if data.length = 1 ∨ data.length = 2 ∨ data.length = 4 ∨ data.length = 8 then
    .uint data.length
  else .blob

/-- What stands behind a number, up to its notation in hexadecimal. -/
def widthNote : Nat → Bytes
  | 1 => lit "  (u8)\n"
  | 2 => lit "  (u16)\n"
  | 4 => lit "  (u32, 0x"
  | _ => lit "  (u64, 0x"

/-- What stands behind the size of a blob. -/
def blobTail (data : Bytes) : Bytes :=
  lit " bytes)" ++ (blobBytes (data.take 32) ++ ((if 32 < data.length then lit " ..." else []) ++
    lit "\n"))

/-- The form of a text, by the first bytes that are no digits. -/
def readForm (text : Bytes) : ScalarForm :=
  match text.dropWhile isDigit with
  | 34 :: _ => .string
  | 40 :: 102 :: _ => .flag
  | 40 :: _ => .blob
  | _ :: _ :: _ :: _ :: 56 :: _ => .uint 1
  | _ :: _ :: _ :: _ :: 49 :: _ => .uint 2
  | _ :: _ :: _ :: _ :: 51 :: _ => .uint 4
  | _ => .uint 8

theorem eq_nil_of_flag {data : Bytes} (form : scalarForm data = .flag) : data = [] := by
  unfold scalarForm at form
  split at form
  · assumption
  · split at form
    · cases form
    · split at form
      · cases form
      · cases form

theorem isString_of_form {data : Bytes} (form : scalarForm data = .string) :
    data ≠ [] ∧ isString data = true := by
  unfold scalarForm at form
  split at form
  · cases form
  · next nonempty =>
      split at form
      · next string => exact ⟨nonempty, string⟩
      · split at form
        · cases form
        · cases form

theorem scalarText_of_string {data : Bytes} (form : scalarForm data = .string) :
    scalarText data =
      lit "\"" ++ data.dropLast ++ lit "\"  (string," ++ (charByte ' ' :: decimal data.length) ++
        lit " bytes)\n" := by
  obtain ⟨nonempty, string⟩ := isString_of_form form
  have note : lit "\"  (string, " = lit "\"  (string," ++ [charByte ' '] := by decide
  rw [scalarText, if_neg nonempty, if_pos string, note]
  simp only [List.append_assoc, List.nil_append, List.cons_append]

/-- A number is shown with its width. -/
theorem scalarText_of_uint {data : Bytes} {width : Nat} (form : scalarForm data = .uint width) :
    data.length = width ∧ (width = 1 ∨ width = 2 ∨ width = 4 ∨ width = 8) ∧
      ∃ note, scalarText data = decimal (uintOf data) ++ (widthNote width ++ note) := by
  unfold scalarForm at form
  unfold scalarText
  split at form
  · cases form
  · next nonempty =>
      split at form
      · cases form
      · next other =>
          split at form
          · next widths =>
              obtain rfl := ScalarForm.uint.inj form
              refine ⟨rfl, widths, ?_⟩
              rw [if_neg nonempty, if_neg other, sizedText]
              rcases widths with width | width | width | width
              · exact ⟨[], by rw [width]; rfl⟩
              · exact ⟨[], by rw [width]; rfl⟩
              · exact ⟨hexField 8 (uintOf data) ++ lit ")\n", by
                  rw [width]; simp only [List.append_assoc]; rfl⟩
              · exact ⟨hexField 16 (uintOf data) ++ lit ")\n", by
                  rw [width]; simp only [List.append_assoc]; rfl⟩
          · cases form

theorem scalarText_of_blob {data : Bytes} (form : scalarForm data = .blob) :
    scalarText data = lit "(blob, " ++ (decimal data.length ++ blobTail data) := by
  unfold scalarForm at form
  unfold scalarText
  split at form
  · cases form
  · next nonempty =>
      split at form
      · cases form
      · next other =>
          split at form
          · cases form
          · next sizes =>
              rw [if_neg nonempty, if_neg other, sizedText]
              split
              · next one => exact absurd (.inl one) sizes
              · next two => exact absurd (.inr (.inl two)) sizes
              · next four => exact absurd (.inr (.inr (.inl four))) sizes
              · next eight => exact absurd (.inr (.inr (.inr eight))) sizes
              · simp only [blobTail, blobBytes, List.append_assoc]

/-- **The form is read off the text.** -/
theorem readForm_scalarText (data : Bytes) : readForm (scalarText data) = scalarForm data := by
  cases form : scalarForm data with
  | flag =>
      rw [eq_nil_of_flag form]
      rfl
  | string =>
      rw [scalarText_of_string form]
      rfl
  | uint width =>
      obtain ⟨_, widths, note, text⟩ := scalarText_of_uint form
      have drop (c : UInt8) (stop : isDigit c = false) (rest : Bytes) :
          readForm (decimal (uintOf data) ++ c :: rest) = readForm (c :: rest) := by
        rw [readForm, dropWhile_isDigit_decimal _ stop, readForm,
          List.dropWhile_cons_of_neg (by simp [stop])]
      rw [text]
      rcases widths with rfl | rfl | rfl | rfl
      · exact (drop 32 (by decide) _).trans rfl
      · exact (drop 32 (by decide) _).trans rfl
      · exact (drop 32 (by decide) _).trans rfl
      · exact (drop 32 (by decide) _).trans rfl
  | blob =>
      rw [scalarText_of_blob form]
      rfl

/-! ## Reading a text back -/

section Reading

variable {p q : Bytes}

/-- A string is read off its text, with its size. -/
theorem scalarText_string_inj (form : scalarForm p = .string) (form' : scalarForm q = .string)
    (same : scalarText p = scalarText q) : p = q := by
  rw [scalarText_of_string form, scalarText_of_string form'] at same
  have sized := append_decimal_inj (by decide) (by decide) (List.append_cancel_right same)
  have strings : p.dropLast = q.dropLast :=
    List.append_cancel_left (List.append_cancel_right sized.1)
  have nul {data : Bytes} (form : scalarForm data = .string) : data = data.dropLast ++ [0] := by
    have string := (isString_of_form form).2
    simp only [isString, Bool.and_eq_true, beq_iff_eq] at string
    exact (List.dropLast_append_getLast? 0 string.1.2).symm
  rw [nul form, nul form', strings]

/-- A number is read off its text, and its bytes are those of its width. -/
theorem scalarText_uint_inj {width : Nat} (form : scalarForm p = .uint width)
    (form' : scalarForm q = .uint width) (same : scalarText p = scalarText q) : p = q := by
  obtain ⟨length, widths, note, text⟩ := scalarText_of_uint form
  obtain ⟨length', _, note', text'⟩ := scalarText_of_uint form'
  obtain ⟨behind, blank⟩ : ∃ behind, widthNote width = 32 :: behind := by
    rcases widths with rfl | rfl | rfl | rfl
    · exact ⟨_, rfl⟩
    · exact ⟨_, rfl⟩
    · exact ⟨_, rfl⟩
    · exact ⟨_, rfl⟩
  rw [text, text', blank, List.cons_append, List.cons_append] at same
  exact uintOf_injective (length.trans length'.symm)
    (decimal_append_inj (by decide) (by decide) same).1

/-- The size and the bytes shown are read off the text of a blob. -/
theorem scalarText_blob_inj (form : scalarForm p = .blob) (form' : scalarForm q = .blob)
    (same : scalarText p = scalarText q) :
    p.length = q.length ∧ p.take 32 = q.take 32 := by
  have tail (data : Bytes) : ∃ behind, blobTail data = 32 :: behind := ⟨_, rfl⟩
  obtain ⟨behind, blank⟩ := tail p
  obtain ⟨behind', blank'⟩ := tail q
  rw [scalarText_of_blob form, scalarText_of_blob form', blank, blank'] at same
  have sized := decimal_append_inj (by decide) (by decide) (List.append_cancel_left same)
  rw [← blank, ← blank', blobTail, blobTail] at sized
  refine ⟨sized.1, blobBytes_append_inj ?_ (List.append_cancel_left sized.2)⟩
  rw [List.length_take, List.length_take, sized.1]

/-- **Payloads with the same text have the same size and the same first bytes**, and are the
same unless they are shown as a blob. -/
theorem scalarText_reads (same : scalarText p = scalarText q) :
    p.length = q.length ∧ p.take 32 = q.take 32 ∧ (scalarForm p ≠ .blob → p = q) := by
  have forms : scalarForm q = scalarForm p := by
    rw [← readForm_scalarText, ← readForm_scalarText, same]
  by_cases blob : scalarForm p = .blob
  · have shown := scalarText_blob_inj blob (forms.trans blob) same
    exact ⟨shown.1, shown.2, fun other => absurd blob other⟩
  · have equal : p = q := by
      cases form : scalarForm p with
      | flag => rw [eq_nil_of_flag form, eq_nil_of_flag (forms.trans form)]
      | string => exact scalarText_string_inj form (forms.trans form) same
      | uint width => exact scalarText_uint_inj form (forms.trans form) same
      | blob => exact absurd form blob
    rw [equal]
    exact ⟨rfl, rfl, fun _ => rfl⟩

/-- Strings and numbers are not shown as blobs. -/
theorem scalarForm_ne_blob
    (form : isString p = true ∨ p.length = 1 ∨ p.length = 2 ∨ p.length = 4 ∨ p.length = 8) :
    scalarForm p ≠ .blob := by
  unfold scalarForm
  split
  · exact ScalarForm.noConfusion
  · split
    · exact ScalarForm.noConfusion
    · next other =>
        rw [if_pos (form.resolve_left other)]
        exact ScalarForm.noConfusion

end Reading

/-- What payloads with the same text have in common. -/
structure ShownAlike (p q : Bytes) : Prop where
  size : p.length = q.length
  first : p.take 32 = q.take 32
  /-- All bytes are read back when the text is a string or a number. -/
  whole : isString p = true ∨ p.length = 1 ∨ p.length = 2 ∨ p.length = 4 ∨ p.length = 8 → p = q
  short : p.length ≤ 32 → p = q

theorem shownAlike_of_scalarText {p q : Bytes} (same : scalarText p = scalarText q) :
    ShownAlike p q := by
  obtain ⟨size, first, whole⟩ := scalarText_reads same
  refine ⟨size, first, fun form => whole (scalarForm_ne_blob form), ?_⟩
  intro short
  rwa [List.take_of_length_le short, List.take_of_length_le (size ▸ short)] at first

/-- **Rendering a scalar loses nothing on short payloads**: from equal texts the sizes and the
first 32 bytes are equal, all bytes are when the text is a string or a number, and so are all
bytes of payloads of at most 32. This holds of payloads of any size anywhere in memory, and
so of the payloads of attributes. -/
theorem renderScalar_reads (mem mem' : Mem) :
    (∀ p q plen plen' : Nat,
        textOf (renderPayload mem p plen) = textOf (renderPayload mem' q plen') →
        ShownAlike (mem.slice p plen) (mem'.slice q plen')) ∧
      ∀ na na' : Nat, 4 ≤ nla.declaredAt mem na → 4 ≤ nla.declaredAt mem' na' →
        textOf (renderScalar mem na) = textOf (renderScalar mem' na') →
        ShownAlike (payload (nla.recordAt mem na)) (payload (nla.recordAt mem' na')) := by
  constructor
  · intro p q plen plen' same
    rw [textOf_renderPayload, textOf_renderPayload] at same
    exact shownAlike_of_scalarText same
  · intro na na' covers covers' same
    rw [textOf_renderScalar covers, textOf_renderScalar covers'] at same
    exact shownAlike_of_scalarText same

/-- Two attributes at different addresses with a string that looks like a number. -/
theorem strings_shownAlike :
    ShownAlike (payload (nla.recordAt (Mem.place (fun _ => 0) [6, 0, 1, 0, 0x31, 0] 0) 0))
      (payload (nla.recordAt (Mem.place (fun _ => 0) [6, 0, 2, 0, 0x31, 0] 8) 8)) :=
  (renderScalar_reads _ _).2 0 8 (by decide) (by decide) rfl

/-! ## Attributes declared as scalars -/

/-- The type hints of scalars. -/
def scalarHints : List CStr :=
  [lit "u8", lit "u16", lit "u32", lit "u64", lit "string", lit "binary", lit "flag"]

/-- The widths of the numbers among them. -/
def hintWidths : List (CStr × Nat) :=
  [(lit "u8", 1), (lit "u16", 2), (lit "u32", 4), (lit "u64", 8)]

/-- An attribute of a set that is declared with a scalar type and sent without
`NLA_F_NESTED`. -/
structure SentScalar (set : AttrSetOverlay) (a : AttrOverlay) (hint : CStr) (f : Bytes) : Prop where
  whole : nla.IsFrame f
  row : a ∈ set.attrs.items
  typed : (attrType f).toUInt32 = a.attrId
  declared : a.typeHint = some hint
  scalar : hint ∈ scalarHints
  plain : rawType f &&& nlaFNested = 0

section SentScalar

variable {set : AttrSetOverlay} {a : AttrOverlay} {hint : CStr} {f : Bytes}
  (all : Option FamilyOverlay) (depth : Nat)

/-- Without a set the attribute is shown by value. -/
theorem SentScalar.rendered_value (sent : SentScalar set a hint f)
    (unknown : childSetOf all (some set) (attrSetLookupName (some set) a.attrId) = none) :
    rendered (some set) all depth f = indentText depth ++
      (attrLabel (attrSetLookupName (some set) a.attrId) (attrType f) ++
        scalarText (payload f)) := by
  rw [rendered_frame (some set) all depth sent.whole, wholeAttrText, attrText, sent.typed, unknown,
    sent.plain, namedText, if_neg (by simp)]

/-- With a set it is shown as a nest. -/
theorem SentScalar.rendered_nest (sent : SentScalar set a hint f) {name : CStr}
    {child : AttrSetOverlay} (named : attrSetLookupName (some set) a.attrId = some name)
    (known : childSetOf all (some set) (some name) = some child) :
    rendered (some set) all depth f = (compactText (some child) depth (payload f)).getD
      (indentText depth ++ (name ++ lit ":\n") ++
        rendered (some child) all (depth + 1) (payload f)) := by
  rw [rendered_frame (some set) all depth sent.whole, wholeAttrText, attrText, sent.typed, named,
    known, namedText, if_pos (.inr rfl), rendered_eq, Option.getD_some,
    List.append_assoc (indentText depth)]

/-- A number of the declared width is shown in decimal unless it is a string, which a
single byte is not. -/
theorem scalarText_of_width {width : Nat} {data : Bytes} (number : (hint, width) ∈ hintWidths)
    (length : data.length = width) :
    (isString data = false →
        ∃ note, scalarText data = decimal (uintOf data) ++ (lit "  (" ++ hint ++ note)) ∧
      (isString data = true → scalarText data = lit "\"" ++ data.dropLast ++
        lit "\"  (string, " ++ decimal data.length ++ lit " bytes)\n") ∧
      (width = 1 → isString data = false) := by
  have nonempty : data ≠ [] := by
    rintro rfl
    subst length
    simp [hintWidths] at number
  refine ⟨?_, ?_, ?_⟩
  · intro other
    rw [scalarText, if_neg nonempty, other, if_neg Bool.false_ne_true, sizedText, length]
    simp only [hintWidths, List.mem_cons, Prod.mk.injEq, List.not_mem_nil, or_false] at number
    rcases number with ⟨rfl, rfl⟩ | ⟨rfl, rfl⟩ | ⟨rfl, rfl⟩ | ⟨rfl, rfl⟩
    · exact ⟨lit ")\n", rfl⟩
    · exact ⟨lit ")\n", rfl⟩
    · exact ⟨lit ", 0x" ++ (hexField 8 (uintOf data) ++ lit ")\n"), by
        simp only [List.append_assoc]; rfl⟩
    · exact ⟨lit ", 0x" ++ (hexField 16 (uintOf data) ++ lit ")\n"), by
        simp only [List.append_assoc]; rfl⟩
  · intro string
    rw [scalarText, if_neg nonempty, if_pos string]
  · rintro rfl
    rw [isString, length]
    rfl

/-- **How an attribute declared as a scalar is shown.** The text is that of the attributes
one after another. An attribute whose name leads to a set is shown as a nest of this set. Any
other is shown by value, and a number of the declared width in decimal, unless its bytes are a
string, which is tried first. -/
theorem SentScalar.text_shown (sent : SentScalar set a hint f) :
    (∀ (mem : Mem) (first : Nat) (totalLen : Int),
        textOf (renderAttrsRecursive mem first totalLen (some set) all depth) =
          (nla.frames (mem.slice first totalLen.toNat)).flatMap (rendered (some set) all depth)) ∧
      (∀ name child, attrSetLookupName (some set) a.attrId = some name →
        childSetOf all (some set) (some name) = some child →
        -- The alias of `INDIR` of `RSS` is a slip, as the attribute is declared as binary. What it
        -- leads to is left out on purpose, although the proof does not need that.
        (findAttrSet all name).isSome ∨ ¬(set.setName = lit "RSS" ∧ name = lit "INDIR") →
        rendered (some set) all depth f = (compactText (some child) depth (payload f)).getD
          (indentText depth ++ (name ++ lit ":\n") ++
            rendered (some child) all (depth + 1) (payload f))) ∧
      (childSetOf all (some set) (attrSetLookupName (some set) a.attrId) = none →
        rendered (some set) all depth f = indentText depth ++
          (attrLabel (attrSetLookupName (some set) a.attrId) (attrType f) ++
            scalarText (payload f))) ∧
      ∀ width, (hint, width) ∈ hintWidths → (payload f).length = width →
        (isString (payload f) = false → ∃ note, scalarText (payload f) =
          decimal (uintOf (payload f)) ++ (lit "  (" ++ hint ++ note)) ∧
        (isString (payload f) = true → scalarText (payload f) =
          lit "\"" ++ (payload f).dropLast ++ lit "\"  (string, " ++
            decimal (payload f).length ++ lit " bytes)\n") ∧
        (width = 1 → isString (payload f) = false) := by
  refine ⟨?_, ?_, sent.rendered_value all depth, ?_⟩
  · intro mem first totalLen
    rw [textOf_eq_rendered, rendered_eq_flatMap]
  · intro name child named known _
    exact sent.rendered_nest all depth named known
  · intro width number length
    exact scalarText_of_width number length

end SentScalar

/-- A set with a number of 16 bits and one of eight. -/
def linkSet : AttrSetOverlay :=
  ⟨lit "LINK", ⟨[⟨1, some (lit "PORT"), some (lit "u16")⟩,
    ⟨2, some (lit "STATE"), some (lit "u8")⟩], 16⟩⟩

/-- An overlay with this set, and with one that has the name of the second number. -/
def linkOverlay : FamilyOverlay :=
  { FamilyOverlay.zero with attrSets := ⟨[linkSet, ⟨lit "STATE", .empty⟩], 16⟩ }

theorem linkSet_port :
    SentScalar linkSet ⟨1, some (lit "PORT"), some (lit "u16")⟩ (lit "u16")
      [6, 0, 1, 0, 0x41, 0] :=
  ⟨by decide, by simp [linkSet], by decide, rfl, by simp [scalarHints], by decide⟩

theorem linkSet_state :
    SentScalar linkSet ⟨2, some (lit "STATE"), some (lit "u8")⟩ (lit "u8") [5, 0, 2, 0, 7] :=
  ⟨by decide, by simp [linkSet], by decide, rfl, by simp [scalarHints], by decide⟩

/-- The number is shown by value, as the string its bytes are. -/
theorem linkSet_port_rendered :
    rendered (some linkSet) (some linkOverlay) 0 [6, 0, 1, 0, 0x41, 0] =
        indentText 0 ++ (attrLabel (some (lit "PORT")) 1 ++ scalarText [0x41, 0]) ∧
      scalarText [0x41, 0] = lit "\"A\"  (string, 2 bytes)\n" := by
  have sent := linkSet_port.text_shown (some linkOverlay) 0
  exact ⟨sent.2.2.1 (by decide), (sent.2.2.2 2 (by simp [hintWidths]) rfl).2.1 (by decide)⟩

/-- **Not every attribute declared as a scalar is shown by value**: one may have the name of
a set. **And not every number of the declared width is shown in decimal**: its bytes may be a
string. -/
theorem scalars_reinterpreted :
    (¬∀ (set : AttrSetOverlay) (a : AttrOverlay) (hint : CStr) (f : Bytes)
        (all : Option FamilyOverlay) (depth : Nat), SentScalar set a hint f →
        rendered (some set) all depth f = indentText depth ++
          (attrLabel (attrSetLookupName (some set) a.attrId) (attrType f) ++
            scalarText (payload f))) ∧
      ¬∀ (set : AttrSetOverlay) (a : AttrOverlay) (hint : CStr) (f : Bytes)
        (all : Option FamilyOverlay) (depth width : Nat), SentScalar set a hint f →
        (hint, width) ∈ hintWidths → (payload f).length = width →
        ∃ note, rendered (some set) all depth f = indentText depth ++
          (attrLabel (attrSetLookupName (some set) a.attrId) (attrType f) ++
            (decimal (uintOf (payload f)) ++ note)) := by
  constructor
  · intro byValue
    have shown := byValue _ _ _ _ (some linkOverlay) 0 linkSet_state
    have named : attrSetLookupName (some linkSet) 2 = some (lit "STATE") := by decide
    have known : childSetOf (some linkOverlay) (some linkSet) (some (lit "STATE")) =
        some ⟨lit "STATE", .empty⟩ := rfl
    have few : nla.frames (payload [5, 0, 2, 0, 7]) = [] := nla.frames_of_short (by decide)
    rw [linkSet_state.rendered_nest (some linkOverlay) 0 named known, rendered_eq, streamText_eq,
      few] at shown
    exact absurd shown (by decide)
  · intro inDecimal
    obtain ⟨note, shown⟩ := inDecimal _ _ _ _ none 0 2 linkSet_port (by simp [hintWidths]) rfl
    rw [linkSet_port.rendered_value none 0 (by decide)] at shown
    have quoted : scalarText [0x41, 0] = 34 :: lit "A\"  (string, 2 bytes)\n" := by decide
    have digits : decimal (uintOf [0x41, 0]) = 54 :: [53] := by decide
    have texts := List.append_cancel_left (List.append_cancel_left shown)
    rw [show payload [6, 0, 1, 0, 0x41, 0] = [0x41, 0] from rfl, quoted, digits] at texts
    exact absurd (List.cons.inj texts).1 (by decide)

end Ykern.Genl
