import Ykern.Genl.Render

/-!
# What rendering prints

The text a rendering computation appends depends only on the bytes to be rendered: it is
the concatenation of the text of the attributes read from them, in order
(`textOf_renderAttrsRecursive`). The text of an attribute is given by its type, its
payload and the sets (`attrText`): a scalar is printed by its size (`scalarText`), an entry
of a bit set as one line (`compactText`), and any other nest with a set as a heading and
the text of its payload (`streamText`).
-/

set_option autoImplicit false

namespace Ykern.Genl

open Overlay Netlink

/-! ## The text of bytes -/

/-- The unsigned number whose bytes, low byte first, are given. -/
def uintOf (bs : Bytes) : Nat := bs.foldr (fun low high => low.toNat + 256 * high) 0

/-- A byte that may stand in a string. -/
def printable (c : UInt8) : Bool := ¬(c < 0x20 ∧ c ≠ charByte '\t') ∧ c ≠ 0x7f

/-- A string: a NUL behind printable bytes. -/
def isString (data : Bytes) : Bool :=
  1 < data.length && data.getLast? == some 0 && data.dropLast.all printable

/-- A payload that is neither empty nor a string. -/
def sizedText (data : Bytes) : Bytes :=
  let v := uintOf data
  match data.length with
  | 1 => decimal v ++ lit "  (u8)\n"
  | 2 => decimal v ++ lit "  (u16)\n"
  | 4 => decimal v ++ lit "  (u32, 0x" ++ hexField 8 v ++ lit ")\n"
  | 8 => decimal v ++ lit "  (u64, 0x" ++ hexField 16 v ++ lit ")\n"
  | n => lit "(blob, " ++ decimal n ++ lit " bytes)" ++
      (data.take 32).flatMap (fun c => lit " " ++ hexField 2 c.toNat) ++
      (if 32 < n then lit " ..." else []) ++ lit "\n"

/-- A payload. -/
def scalarText (data : Bytes) : Bytes :=
  if data = [] then lit "(flag, no payload)\n"
  else if isString data then
    lit "\"" ++ data.dropLast ++ lit "\"  (string, " ++ decimal data.length ++ lit " bytes)\n"
  else sizedText data

/-- An indentation. -/
def indentText (depth : Nat) : Bytes := (List.replicate depth (lit "  ")).flatten

/-- What an entry of a bit set says. -/
structure BitEntry where
  idx : Option Nat
  name : Option CStr
  valueSet : Bool

/-- Take up one attribute of an entry. -/
def BitEntry.take (ids : BitIds) (entry : BitEntry) (f : Bytes) : BitEntry :=
  if (attrType f).toUInt32 = ids.idx ∧ 4 ≤ (payload f).length then
    { entry with idx := some (uintOf ((payload f).take 4)) }
  else if (attrType f).toUInt32 = ids.name then { entry with name := some (cString (payload f)) }
  else if (attrType f).toUInt32 = ids.val then { entry with valueSet := true }
  else entry

/-- The entry a payload holds. -/
def bitEntry (ids : BitIds) (data : Bytes) : BitEntry :=
  (nla.frames data).foldl (BitEntry.take ids) ⟨none, none, false⟩

/-- The line of an entry, for an attribute that is one. -/
def compactText (childSet : Option AttrSetOverlay) (depth : Nat) (data : Bytes) : Option Bytes :=
  childSet.bind fun child =>
    if child.setName = lit "BITSET_BIT" then
      (bitIds child).map fun ids => indentText depth ++ bitLine (bitEntry ids data).idx
        (bitEntry ids data).name (bitEntry ids data).valueSet
    else none

theorem compactText_of_bit {child : AttrSetOverlay} {ids : BitIds} (depth : Nat) (data : Bytes)
    (bit : child.setName = lit "BITSET_BIT") (found : bitIds child = some ids) :
    compactText (some child) depth data = some (indentText depth ++
      bitLine (bitEntry ids data).idx (bitEntry ids data).name (bitEntry ids data).valueSet) := by
  rw [compactText, Option.bind_some, if_pos bit, found, Option.map_some]

theorem compactText_of_not_bit {child : AttrSetOverlay} (depth : Nat) (data : Bytes)
    (other : child.setName ≠ lit "BITSET_BIT") : compactText (some child) depth data = none := by
  rw [compactText, Option.bind_some, if_neg other]

/-- An attribute whose type, name and set are known, with the text of its payload for the
set it is rendered with. -/
def namedText (data : Bytes) (t : UInt16) (nestedFlag : Bool) (name : Option CStr)
    (childSet : Option AttrSetOverlay) (depth : Nat) (recursive : AttrSetOverlay → Bytes) : Bytes :=
  if nestedFlag ∨ childSet.isSome then
    (compactText childSet depth data).getD
      (indentText depth ++ ((name.getD (lit "?") ++ lit ":\n") ++
        match childSet with
        | some child => recursive child
        | none => indentText (depth + 1) ++ (lit "(nested, " ++ decimal data.length ++
            lit (" bytes — schema not declared; add a schema " ++
              "alias if this attribute uses a known sub-set)\n"))))
  else
    indentText depth ++ (attrLabel name t ++ scalarText data)

/-- An attribute, with the text of its payload for the set it is rendered with. -/
def attrText (f : Bytes) (set : Option AttrSetOverlay) (all : Option FamilyOverlay) (depth : Nat)
    (recursive : AttrSetOverlay → Bytes) : Bytes :=
  let name := attrSetLookupName set (attrType f).toUInt32
  namedText (payload f) (attrType f) (rawType f &&& nlaFNested != 0) name (childSetOf all set name)
    depth recursive

theorem compactText_ne_nil {childSet : Option AttrSetOverlay} {depth : Nat} {data text : Bytes}
    (found : compactText childSet depth data = some text) : text ≠ [] := by
  have bracket : lit "[" ≠ [] := by decide
  obtain ⟨child, _, line⟩ := Option.bind_eq_some_iff.mp found
  split at line
  · obtain ⟨ids, _, rfl⟩ := Option.map_eq_some_iff.mp line
    simp [bitLine, bracket]
  · cases line

/-- Every attribute has a text. -/
theorem namedText_ne_nil (data : Bytes) (t : UInt16) (nestedFlag : Bool) (name : Option CStr)
    (childSet : Option AttrSetOverlay) (depth : Nat) (recursive : AttrSetOverlay → Bytes) :
    namedText data t nestedFlag name childSet depth recursive ≠ [] := by
  unfold namedText
  split
  · cases compact : compactText childSet depth data with
    | none => simp [show lit ":\n" ≠ [] by decide]
    | some text => exact compactText_ne_nil compact
  · cases name with
    | none => simp [attrLabel, show lit "[attr " ≠ [] by decide]
    | some name => simp [attrLabel, show lit " = " ≠ [] by decide]

theorem payload_length_lt {bs f : Bytes} (member : f ∈ nla.frames bs) :
    (payload f).length < bs.length := by
  have whole := Framing.isFrame_of_mem_frames member
  have short := Framing.length_le_of_mem_frames member
  have header : nla.header = 4 := rfl
  have := whole.1
  rw [payload, List.length_drop]
  omega

/-- A stream of attributes. -/
def streamText (set : Option AttrSetOverlay) (all : Option FamilyOverlay) (depth : Nat)
    (bs : Bytes) : Bytes :=
  (nla.frames bs).attach.flatMap fun f => attrText f.1 set all depth fun child =>
    streamText (some child) all (depth + 1) (payload f.1)
termination_by bs.length
decreasing_by exact payload_length_lt f.2

/-- An attribute with everything in it. -/
def wholeAttrText (set : Option AttrSetOverlay) (all : Option FamilyOverlay) (depth : Nat)
    (f : Bytes) : Bytes :=
  attrText f set all depth fun child => streamText (some child) all (depth + 1) (payload f)

/-- The text of a stream is the text of its attributes, in order. -/
theorem streamText_eq (set : Option AttrSetOverlay) (all : Option FamilyOverlay) (depth : Nat)
    (bs : Bytes) :
    streamText set all depth bs = (nla.frames bs).flatMap (wholeAttrText set all depth) := by
  rw [streamText, List.flatMap_subtype, List.unattach_attach]
  intro f member
  rfl

/-! ## The text of a computation -/

/-- The text an event appends. -/
def RenderEvent.text : RenderEvent → Bytes
  | .read _ => []
  | .enter _ => []
  | .write text => text

/-- The text a computation appends. -/
def textOf {α : Type} (x : Render α) : Bytes := x.log.flatMap RenderEvent.text

section Text

variable {α β : Type} {mem : Mem} {p n : Nat}

@[simp] theorem textOf_pure (a : α) : textOf (pure a : Render α) = [] := rfl

@[simp] theorem textOf_bind (x : Render α) (f : α → Render β) :
    textOf (x >>= f) = textOf x ++ textOf (f x.val) := by
  rw [textOf, Traced.log_bind, List.flatMap_append]
  rfl

@[simp] theorem textOf_tbAppend (text : Bytes) : textOf (tbAppend text) = text := by
  simp [textOf, tbAppend, RenderEvent.text]

@[simp] theorem textOf_tbIndent (depth : Nat) : textOf (tbIndent depth) = indentText depth := by
  induction depth with
  | zero => rfl
  | succ depth ih =>
      rw [tbIndent, textOf_bind, textOf_tbAppend, ih, indentText, indentText, List.replicate_succ,
        List.flatten_cons]

/-! Reading appends nothing. -/

@[simp] theorem textOf_load8 : textOf (load8 mem p) = [] := rfl

@[simp] theorem textOf_nlaLen : textOf (nlaLen mem p) = [] := rfl

@[simp] theorem textOf_nlaType : textOf (nlaType mem p) = [] := rfl

@[simp] theorem textOf_nlaOk (rem : Int) : textOf (nlaOk mem p rem) = [] := by
  unfold nlaOk
  split
  · rfl
  · rfl

@[simp] theorem textOf_loadUint : textOf (loadUint mem p n) = [] := by
  induction n generalizing p with
  | zero => rfl
  | succ n ih => simp [loadUint, ih]

@[simp] theorem textOf_loadString : textOf (loadString mem p n) = [] := by
  induction n generalizing p with
  | zero => rfl
  | succ n ih =>
      rw [loadString, textOf_bind, textOf_load8, List.nil_append]
      split
      · rfl
      · simp [ih]

@[simp] theorem textOf_looksPrintable : textOf (looksPrintable mem p n) = [] := by
  induction n generalizing p with
  | zero => rfl
  | succ n ih =>
      rw [looksPrintable, textOf_bind, textOf_load8, List.nil_append]
      split
      · rfl
      · split
        · rfl
        · exact ih

@[simp] theorem textOf_payloadIsString : textOf (payloadIsString mem p n) = [] := by
  unfold payloadIsString looksLikeString
  split
  · split
    · rfl
    · rw [textOf_bind, textOf_load8, List.nil_append]
      split
      · rfl
      · exact textOf_looksPrintable
  · rfl

@[simp] theorem textOf_bitName (name : Option (Nat × Nat)) : textOf (bitName mem name) = [] := by
  unfold bitName
  split
  · simp
  · rfl

theorem textOf_bitAttr (ids : BitIds) (l : BitLocals) : textOf (bitAttr mem ids p l) = [] := by
  simp only [bitAttr, textOf_bind, textOf_nlaType, textOf_nlaLen, List.nil_append]
  unfold bitPayload
  split
  · simp
  · split
    · unfold bitNameLen
      split
      · simp
      · simp
    · split
      · rfl
      · rfl

/-! ## Values read -/

@[simp] theorem val_load8 : (load8 mem p).val = mem p := rfl

theorem val_loadUint : (loadUint mem p n).val = uintOf (mem.slice p n) := by
  induction n generalizing p with
  | zero => rfl
  | succ n ih =>
      rw [Mem.slice_succ, uintOf, List.foldr_cons, ← uintOf, ← ih]
      rfl

theorem val_loadString : (loadString mem p n).val = cString (mem.slice p n) := by
  induction n generalizing p with
  | zero => rfl
  | succ n ih =>
      rw [Mem.slice_succ, cString, List.takeWhile_cons, ← cString, ← ih, loadString, Traced.val_bind,
        val_load8]
      by_cases nul : mem p = 0
      · rw [if_pos nul, if_neg (by simp [nul])]
        rfl
      · rw [if_neg nul, if_pos (by simp [nul])]
        rfl

theorem val_looksPrintable :
    (looksPrintable mem p n).val = (mem.slice p n).all printable := by
  induction n generalizing p with
  | zero => rfl
  | succ n ih =>
      rw [Mem.slice_succ, List.all_cons, ← ih, looksPrintable, Traced.val_bind, val_load8]
      by_cases control : mem p < 0x20 ∧ mem p ≠ charByte '\t'
      · rw [if_pos control]
        simp [printable, control]
      · rw [if_neg control]
        by_cases rubout : mem p = 0x7f
        · rw [if_pos rubout]
          simp [printable, rubout]
        · rw [if_neg rubout, show printable (mem p) = true by simp [printable, control, rubout],
            Bool.true_and]

theorem val_payloadIsString : (payloadIsString mem p n).val = isString (mem.slice p n) := by
  unfold payloadIsString isString looksLikeString
  rw [Mem.length_slice]
  by_cases long : 1 < n
  · obtain ⟨m, rfl⟩ : ∃ m, n = m + 1 := ⟨n - 1, by omega⟩
    have last : mem.slice p (m + 1) = mem.slice p m ++ [mem (p + m)] := Mem.slice_add mem p m 1
    rw [if_pos long, if_neg (by omega), Traced.val_bind, val_load8, last, List.getLast?_concat,
      List.dropLast_concat, Nat.add_sub_cancel]
    by_cases nul : mem (p + m) = 0
    · rw [if_neg (by simp [nul]), val_looksPrintable]
      simp [nul, long]
    · rw [if_pos nul]
      simp [nul]
  · rw [if_neg long]
    simp [long]

/-! ## Scalars -/

theorem textOf_showBytes :
    textOf (showBytes mem p n) =
      (mem.slice p n).flatMap fun c => lit " " ++ hexField 2 c.toNat := by
  induction n generalizing p with
  | zero => rfl
  | succ n ih => simp [showBytes, Mem.slice_succ, ih]

theorem textOf_renderBySize : textOf (renderBySize mem p n) = sizedText (mem.slice p n) := by
  have shown : (mem.slice p n).take 32 = mem.slice p (min n 32) := by
    rcases le_total n 32 with short | long
    · rw [List.take_of_length_le (by simpa using short), min_eq_left short]
    · rw [Mem.take_slice mem p long, min_eq_right long]
  unfold renderBySize sizedText
  rw [Mem.length_slice]
  split
  · simp [val_loadUint]
  · simp [val_loadUint]
  · simp [val_loadUint]
  · simp [val_loadUint]
  · simp [textOf_showBytes, shown]

theorem zero_notMem_of_isString {data : Bytes} (string : isString data = true) :
    (0 : UInt8) ∉ data.dropLast := by
  intro member
  rw [isString, Bool.and_eq_true, List.all_eq_true] at string
  exact absurd (string.2 0 member) (by decide)

/-- A payload in memory is rendered as its bytes are. -/
theorem textOf_renderPayload : textOf (renderPayload mem p n) = scalarText (mem.slice p n) := by
  unfold renderPayload scalarText
  by_cases empty : n = 0
  · subst empty
    rfl
  have nonempty : mem.slice p n ≠ [] := by
    intro none
    exact empty (by simpa using congrArg List.length none)
  rw [if_neg empty, if_neg nonempty, textOf_bind, textOf_payloadIsString, List.nil_append,
    val_payloadIsString]
  by_cases string : isString (mem.slice p n) = true
  · rw [if_pos string, if_pos string, textOf_bind, textOf_loadString, List.nil_append,
      textOf_tbAppend, val_loadString, Mem.length_slice, ← Mem.take_slice mem p (Nat.sub_le n 1)]
    have init : (mem.slice p n).take (n - 1) = (mem.slice p n).dropLast := by
      rw [List.dropLast_eq_take, Mem.length_slice]
    rw [init, cString_eq_self (zero_notMem_of_isString string)]
  · rw [if_neg string, if_neg string, textOf_renderBySize]

/-! ## Entries of bit sets -/

/-- The entry that the locals describe. -/
def BitLocals.entry (mem : Mem) (l : BitLocals) : BitEntry :=
  ⟨l.idx, l.name.map fun name => cString (mem.slice name.1 name.2), l.valueSet⟩

/-- Without a NUL at its end a name is the same string. -/
theorem cString_bitNameLen :
    cString (mem.slice p (bitNameLen mem p n).val) = cString (mem.slice p n) := by
  unfold bitNameLen
  split
  · next long =>
      obtain ⟨m, rfl⟩ : ∃ m, n = m + 1 := ⟨n - 1, by omega⟩
      rw [Traced.val_bind, val_load8, Traced.val_pure, Nat.add_sub_cancel]
      split
      · next nul =>
          have last : mem.slice p (m + 1) = mem.slice p m ++ [0] := by
            rw [Mem.slice_add mem p m 1, ← nul]
            rfl
          rw [last, cString_concat_nul]
      · rfl
  · rfl

theorem entry_bitPayload (ids : BitIds) (t : UInt32) (l : BitLocals) (f : Bytes)
    (type : (attrType f).toUInt32 = t) (data : payload f = mem.slice p n) :
    (bitPayload mem ids t p n l).val.entry mem = (l.entry mem).take ids f := by
  unfold bitPayload BitEntry.take
  rw [type, data, Mem.length_slice]
  by_cases index : t = ids.idx ∧ 4 ≤ n
  · rw [if_pos index, if_pos index, Traced.val_bind, Traced.val_pure, val_loadUint,
      Mem.take_slice mem p index.2]
    rfl
  rw [if_neg index, if_neg index]
  by_cases name : t = ids.name
  · rw [if_pos name, if_pos name, Traced.val_bind, Traced.val_pure, ← cString_bitNameLen]
    rfl
  rw [if_neg name, if_neg name]
  by_cases value : t = ids.val
  · rw [if_pos value, if_pos value]
    rfl
  · rw [if_neg value, if_neg value]
    rfl

theorem entry_bitAttr (ids : BitIds) (l : BitLocals) (covers : 4 ≤ nla.declaredAt mem p) :
    (bitAttr mem ids p l).val.entry mem = (l.entry mem).take ids (nla.recordAt mem p) := by
  refine entry_bitPayload ids _ l _ ?_ (payload_recordAt covers)
  rw [attrType, rawType_recordAt covers]
  rfl

theorem bitLoop_meaning (ids : BitIds) (rem : Int) (l : BitLocals) :
    textOf (bitLoop mem ids p rem l) = [] ∧
      (bitLoop mem ids p rem l).val.entry mem =
        (nla.frames (mem.slice p rem.toNat)).foldl (BitEntry.take ids) (l.entry mem) := by
  induction remaining : rem.toNat using Nat.strong_induction_on generalizing p rem l with
  | _ n ih =>
      subst remaining
      by_cases ok : nla.Ok mem p rem
      · have rest := ih _ ok.advance (p := p + align4 (nla.declaredAt mem p)) _
          (bitAttr mem ids p l).val rfl
        rw [bitLoop_of_ok ids l ok, ok.frames_slice, List.foldl_cons, ← entry_bitAttr ids l ok.2.1,
          ← rest.2]
        simp [textOf_bitAttr, rest.1]
      · rw [bitLoop_of_not_ok ids l ok, Framing.frames_slice_of_not_ok ok]
        simp

theorem val_bitName (l : BitLocals) : (bitName mem l.name).val = (l.entry mem).name := by
  unfold bitName BitLocals.entry
  split
  · next name nameLen found => rw [Traced.val_bind, Traced.val_pure, val_loadString, found]; rfl
  · next missing => rw [missing]; rfl

theorem tryRenderBitCompact_meaning (bitSet : AttrSetOverlay) (depth : Nat)
    (covers : 4 ≤ nla.declaredAt mem p) :
    (tryRenderBitCompact mem p bitSet depth).val = (bitIds bitSet).isSome ∧
      textOf (tryRenderBitCompact mem p bitSet depth) =
        ((bitIds bitSet).map fun ids =>
          indentText depth ++ bitLine (bitEntry ids (payload (nla.recordAt mem p))).idx
            (bitEntry ids (payload (nla.recordAt mem p))).name
            (bitEntry ids (payload (nla.recordAt mem p))).valueSet).getD [] := by
  unfold tryRenderBitCompact
  cases found : bitIds bitSet with
  | none => exact ⟨rfl, rfl⟩
  | some ids =>
      refine ⟨rfl, ?_⟩
      have loop := @bitLoop_meaning mem (p + 4) ids (nla.declaredAt mem p - 4 : Nat)
        ⟨none, none, false⟩
      rw [Int.toNat_natCast, ← payload_recordAt covers] at loop
      simp only [textOf_bind, textOf_nlaLen, val_nlaLen, loop.1, textOf_tbIndent, textOf_bitName,
        val_bitName, textOf_tbAppend, textOf_pure, List.nil_append, List.append_nil,
        Option.map_some, Option.getD_some]
      rw [bitEntry, ← show (⟨none, none, false⟩ : BitLocals).entry mem = ⟨none, none, false⟩ from rfl,
        ← loop.2]
      rfl

/-! ## Attributes -/

theorem renderedCompact_meaning (childSet : Option AttrSetOverlay) (depth : Nat)
    (covers : 4 ≤ nla.declaredAt mem p) :
    (renderedCompact mem p childSet depth).val =
        (compactText childSet depth (payload (nla.recordAt mem p))).isSome ∧
      textOf (renderedCompact mem p childSet depth) =
        (compactText childSet depth (payload (nla.recordAt mem p))).getD [] := by
  unfold renderedCompact compactText
  cases childSet with
  | none => exact ⟨rfl, rfl⟩
  | some child =>
      rw [Option.bind_some]
      by_cases bit : child.setName = lit "BITSET_BIT"
      · rw [if_pos bit]
        have meaning := tryRenderBitCompact_meaning child depth covers
        simp only [if_pos bit]
        exact ⟨meaning.1.trans Option.isSome_map.symm, meaning.2⟩
      · simp only [if_neg bit]
        exact ⟨rfl, rfl⟩

theorem length_payload_recordAt (covers : 4 ≤ nla.declaredAt mem p) :
    (payload (nla.recordAt mem p)).length = nla.declaredAt mem p - 4 := by
  rw [payload_recordAt covers, Mem.length_slice]

theorem textOf_renderScalar (covers : 4 ≤ nla.declaredAt mem p) :
    textOf (renderScalar mem p) = scalarText (payload (nla.recordAt mem p)) := by
  rw [payload_recordAt covers, ← textOf_renderPayload]
  rfl

theorem textOf_renderNamed (t : UInt16) (nestedFlag : Bool) (name : Option CStr)
    (childSet : Option AttrSetOverlay) (depth : Nat) (recursive : AttrSetOverlay → Render Unit)
    (covers : 4 ≤ nla.declaredAt mem p) :
    textOf (renderNamed mem p t nestedFlag name childSet depth recursive) =
      namedText (payload (nla.recordAt mem p)) t nestedFlag name childSet depth
        fun child => textOf (recursive child) := by
  have compact := renderedCompact_meaning childSet depth covers
  unfold renderNamed namedText
  split
  · rw [textOf_bind, compact.1, compact.2]
    cases compactText childSet depth (payload (nla.recordAt mem p)) with
    | some line => simp
    | none =>
        cases childSet with
        | some child => simp
        | none => simp [renderUndeclared, length_payload_recordAt covers]
  · simp [textOf_renderScalar covers]

/-- An attribute in memory is rendered as its bytes are. -/
theorem textOf_renderAttr (set : Option AttrSetOverlay) (all : Option FamilyOverlay) (depth : Nat)
    (recursive : AttrSetOverlay → Render Unit) (covers : 4 ≤ nla.declaredAt mem p) :
    textOf (renderAttr mem p set all depth recursive) =
      attrText (nla.recordAt mem p) set all depth fun child => textOf (recursive child) := by
  have type : (nlaType mem p).val = rawType (nla.recordAt mem p) := (rawType_recordAt covers).symm
  rw [renderAttr, textOf_bind, textOf_nlaType, List.nil_append, type]
  exact textOf_renderNamed _ _ _ _ depth recursive covers

theorem textOf_renderLoop (set : Option AttrSetOverlay) (all : Option FamilyOverlay) (depth : Nat)
    (rem : Int) :
    textOf (renderLoop mem p rem set all depth) =
      streamText set all depth (mem.slice p rem.toNat) := by
  induction remaining : rem.toNat using Nat.strong_induction_on generalizing p rem set depth with
  | _ n ih =>
      subst remaining
      rw [streamText_eq]
      by_cases ok : nla.Ok mem p rem
      · have ⟨long, covers, within⟩ := ok
        have header : nla.header = 4 := rfl
        have rest := ih _ ok.advance (p := p + align4 (nla.declaredAt mem p)) set depth _ rfl
        rw [streamText_eq] at rest
        rw [renderLoop_of_ok set all depth ok, ok.frames_slice, List.flatMap_cons, ← rest]
        have nested : ∀ child, textOf (renderNested mem p all depth child) =
            streamText (some child) all (depth + 1) (payload (nla.recordAt mem p)) := by
          intro child
          rw [payload_recordAt covers]
          exact ih _ (by omega) (some child) (depth + 1) _ (Int.toNat_natCast _)
        simp only [textOf_bind, textOf_nlaOk, textOf_nlaLen, List.nil_append, wholeAttrText,
          textOf_renderAttr set all depth _ covers, nested]
      · rw [renderLoop_of_not_ok set all depth ok, Framing.frames_slice_of_not_ok ok]
        simp

end Text

/-- **What rendering prints depends only on the bytes to be rendered**: it is the text of
the attributes read from them. -/
theorem textOf_renderAttrsRecursive (mem : Mem) (first : Nat) (totalLen : Int)
    (set : Option AttrSetOverlay) (all : Option FamilyOverlay) (depth : Nat) :
    textOf (renderAttrsRecursive mem first totalLen set all depth) =
      streamText set all depth (mem.slice first totalLen.toNat) :=
  textOf_renderLoop set all depth totalLen

end Ykern.Genl
