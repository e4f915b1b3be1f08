import Ykern.Foundation.Traced
import Ykern.Netlink.Wire
import Ykern.Overlay.Records

/-!
# Rendering attributes

The attributes of a reply are rendered as indented lines. An attribute whose name
is a set, or stands for one, is rendered by a recursive call on its payload with that
set, and the entries of a bit set are rendered as one line each. Everything else is
rendered by the size of its payload.

Rendering is a computation that reads bytes, enters calls and appends text. It
ends whatever the bytes and the sets are: a call handles fewer bytes than its caller,
and each iteration leaves fewer bytes than the one before.
-/

set_option autoImplicit false

namespace Ykern.Genl

open Overlay Netlink

/-- What rendering does: read a byte, enter a call, append text. -/
inductive RenderEvent where
  | read (address : Nat)
  | enter (depth : Nat)
  | write (text : Bytes)

/-- A rendering computation. -/
abbrev Render := Traced RenderEvent

/-! ## Reading -/

/-- Read a byte. -/
def load8 (mem : Mem) (p : Nat) : Render UInt8 := do
  Traced.emit (.read p)
  pure (mem p)

/-- Copy an unsigned number of so many bytes. -/
def loadUint (mem : Mem) (p : Nat) : Nat → Render Nat
  | 0 => pure 0
  | n + 1 => do
      let low ← load8 mem p
      let high ← loadUint mem (p + 1) n
      pure (low.toNat + 256 * high)

/-- `%.*s`: read at most so many bytes of a string, and its NUL when it comes first. -/
def loadString (mem : Mem) (p : Nat) : Nat → Render CStr
  | 0 => pure []
  | n + 1 => do
      let c ← load8 mem p
      if c = 0 then pure []
      else do
        let rest ← loadString mem (p + 1) n
        pure (c :: rest)

/-- `nla_len`. -/
def nlaLen (mem : Mem) (na : Nat) : Render {len : Nat // len = nla.declaredAt mem na} := do
  Traced.emit (.read na)
  Traced.emit (.read (na + 1))
  pure ⟨(mem.load16 na).toNat, rfl⟩

@[simp] theorem val_nlaLen (mem : Mem) (na : Nat) :
    (nlaLen mem na).val = ⟨nla.declaredAt mem na, rfl⟩ := rfl

/-- `nla_type`. -/
def nlaType (mem : Mem) (na : Nat) : Render UInt16 := do
  Traced.emit (.read (na + 2))
  Traced.emit (.read (na + 3))
  pure (mem.load16 (na + 2))

/-- `NLA_OK`, which looks at the length when a header fits. -/
def nlaOk (mem : Mem) (na : Nat) (rem : Int) : Render (Decidable (nla.Ok mem na rem)) :=
  if long : (4 : Int) ≤ rem then do
    let ⟨len, exact⟩ ← nlaLen mem na
    pure (decidable_of_iff (4 ≤ len ∧ (len : Int) ≤ rem)
      ⟨fun fits => ⟨long, exact ▸ fits.1, exact ▸ fits.2⟩,
        fun ok => ⟨exact ▸ ok.2.1, exact ▸ ok.2.2⟩⟩)
  else pure (isFalse fun ok => long ok.1)

/-! ## Text -/

/-- `tb_appendf`, with the text formatted. -/
def tbAppend (text : Bytes) : Render Unit := Traced.emit (.write text)

/-- `tb_indent`. -/
def tbIndent : Nat → Render Unit
  | 0 => pure ()
  | depth + 1 => do
      tbAppend (lit "  ")
      tbIndent depth

/-- `%0*x`. -/
def hexField (width n : Nat) : Bytes := padLeft (charByte '0') width (hex n)

theorem notMem_hexField {c : UInt8} (other : c ∉ hexDigits) (width n : Nat) :
    c ∉ hexField width n := by
  refine notMem_append (fun member => other ?_) (notMem_hex other n)
  rw [List.eq_of_mem_replicate member]
  decide

/-! ## Scalars -/

/-- The loop of `looks_like_string`. -/
def looksPrintable (mem : Mem) (data : Nat) : Nat → Render Bool
  | 0 => pure true
  | n + 1 => do
      let c ← load8 mem data
      if c < 0x20 ∧ c ≠ charByte '\t' then pure false
      else if c = 0x7f then pure false
      else looksPrintable mem (data + 1) n

/-- `looks_like_string`. -/
def looksLikeString (mem : Mem) (data len : Nat) : Render Bool :=
  if len < 1 then pure false
  else do
    let last ← load8 mem (data + (len - 1))
    if last ≠ 0 then pure false
    else looksPrintable mem data (len - 1)

/-- The bytes of a blob that are shown. -/
def showBytes (mem : Mem) (p : Nat) : Nat → Render Unit
  | 0 => pure ()
  | n + 1 => do
      let c ← load8 mem p
      tbAppend (lit " " ++ hexField 2 c.toNat)
      showBytes mem (p + 1) n

/-- The switch of `render_scalar` on the size of the payload. -/
def renderBySize (mem : Mem) (p plen : Nat) : Render Unit :=
  match plen with
  | 1 => do
      let v ← loadUint mem p 1
      tbAppend (decimal v ++ lit "  (u8)\n")
  | 2 => do
      let v ← loadUint mem p 2
      tbAppend (decimal v ++ lit "  (u16)\n")
  | 4 => do
      let v ← loadUint mem p 4
      tbAppend (decimal v ++ lit "  (u32, 0x" ++ hexField 8 v ++ lit ")\n")
  | 8 => do
      let v ← loadUint mem p 8
      tbAppend (decimal v ++ lit "  (u64, 0x" ++ hexField 16 v ++ lit ")\n")
  | _ => do
      tbAppend (lit "(blob, " ++ decimal plen ++ lit " bytes)")
      showBytes mem p (min plen 32)
      tbAppend (if 32 < plen then lit " ..." else [])
      tbAppend (lit "\n")

/-- The test of `render_scalar` for a string. -/
def payloadIsString (mem : Mem) (p plen : Nat) : Render Bool :=
  if 1 < plen then looksLikeString mem p plen else pure false

/-- `render_scalar`, with the payload and its size. -/
def renderPayload (mem : Mem) (p plen : Nat) : Render Unit :=
  if plen = 0 then tbAppend (lit "(flag, no payload)\n")
  else do
    let string ← payloadIsString mem p plen
    if string then do
      let s ← loadString mem p (plen - 1)
      tbAppend (lit "\"" ++ s ++ lit "\"  (string, " ++ decimal plen ++ lit " bytes)\n")
    else renderBySize mem p plen

/-- `render_scalar`. -/
def renderScalar (mem : Mem) (na : Nat) : Render Unit := do
  let ⟨len, _⟩ ← nlaLen mem na
  renderPayload mem (na + 4) (len - 4)

/-! ## Sets -/

/-- `g_schema_aliases`: parent set, attribute and child set. -/
def schemaAliases : List (CStr × CStr × CStr) :=
  [(lit "FEATURES", lit "HW", lit "BITSET"),
    (lit "FEATURES", lit "WANTED", lit "BITSET"),
    (lit "FEATURES", lit "ACTIVE", lit "BITSET"),
    (lit "FEATURES", lit "NOCHANGE", lit "BITSET"),
    (lit "LINKMODES", lit "OURS", lit "BITSET"),
    (lit "LINKMODES", lit "PEER", lit "BITSET"),
    (lit "DEBUG", lit "MSGMASK", lit "BITSET"),
    (lit "PRIVFLAGS", lit "FLAGS", lit "BITSET"),
    (lit "WOL", lit "MODES", lit "BITSET"),
    (lit "TSINFO", lit "TIMESTAMPING", lit "BITSET"),
    (lit "TSINFO", lit "TX_TYPES", lit "BITSET"),
    (lit "TSINFO", lit "RX_FILTERS", lit "BITSET"),
    (lit "FEC", lit "ACTIVE_FEC", lit "BITSET"),
    (lit "FEC", lit "MODES", lit "BITSET"),
    (lit "RSS", lit "INDIR", lit "BITSET"),
    (lit "BITSET", lit "BITS", lit "BITSET_BITS"),
    (lit "BITSET_BITS", lit "BIT", lit "BITSET_BIT"),
    (lit "STRSET", lit "STRINGSETS", lit "STRINGSETS"),
    (lit "STRINGSETS", lit "STRINGSET", lit "STRINGSET"),
    (lit "STRINGSET", lit "STRINGS", lit "STRINGS"),
    (lit "STRINGS", lit "STRING", lit "STRING")]

/-- `resolve_alias`. -/
def resolveAlias (parentSet : Option CStr) (attrName : CStr) : Option CStr :=
  parentSet.bind fun parent =>
    (schemaAliases.find? fun a => a.1 == parent && a.2.1 == attrName).map (·.2.2)

/-- The set an attribute with this name is rendered with: the one of its name, or the
one its name stands for. -/
def childSetOf (all : Option FamilyOverlay) (set : Option AttrSetOverlay) (name : Option CStr) :
    Option AttrSetOverlay :=
  name.bind fun name =>
    (findAttrSet all name).orElse fun _ =>
      (resolveAlias (set.map (·.setName)) name).bind (findAttrSet all)

/-! ## Bit sets -/

/-- The locals of `try_render_bit_compact`. A name is an address and a length. -/
structure BitLocals where
  idx : Option Nat
  name : Option (Nat × Nat)
  valueSet : Bool

/-- The identifiers `try_render_bit_compact` looks up. -/
structure BitIds where
  idx : UInt32
  name : UInt32
  val : UInt32
  deriving DecidableEq

/-- The lookups of `try_render_bit_compact`. -/
def bitIds (bitSet : AttrSetOverlay) : Option BitIds :=
  (attrSetLookupId bitSet (lit "INDEX")).bind fun idx =>
    (attrSetLookupId bitSet (lit "NAME")).bind fun name =>
      (attrSetLookupId bitSet (lit "VALUE")).map fun val => ⟨idx, name, val⟩

/-- The length of a name, without a NUL at its end. -/
def bitNameLen (mem : Mem) (p plen : Nat) : Render Nat :=
  if 0 < plen then do
    let last ← load8 mem (p + (plen - 1))
    pure (if last = 0 then plen - 1 else plen)
  else pure plen

/-- The body of the loop of `try_render_bit_compact`, with the type, the payload and its
size. -/
def bitPayload (mem : Mem) (ids : BitIds) (t : UInt32) (p plen : Nat) (l : BitLocals) :
    Render BitLocals :=
  if t = ids.idx ∧ 4 ≤ plen then do
    let idx ← loadUint mem p 4
    pure { l with idx := some idx }
  else if t = ids.name then do
    let nameLen ← bitNameLen mem p plen
    pure { l with name := some (p, nameLen) }
  else if t = ids.val then pure { l with valueSet := true }
  else pure l

/-- The body of the loop of `try_render_bit_compact`. -/
def bitAttr (mem : Mem) (ids : BitIds) (na : Nat) (l : BitLocals) : Render BitLocals := do
  let rawType ← nlaType mem na
  let ⟨len, _⟩ ← nlaLen mem na
  bitPayload mem ids (rawType &&& nlaTypeMask).toUInt32 (na + 4) (len - 4) l

/-- The loop of `try_render_bit_compact`. -/
def bitLoop (mem : Mem) (ids : BitIds) (na : Nat) (rem : Int) (l : BitLocals) : Render BitLocals :=
  nlaOk mem na rem >>= fun
    | isTrue _ok => do
        let l ← bitAttr mem ids na l
        let ⟨len, _exact⟩ ← nlaLen mem na
        bitLoop mem ids (na + align4 len) (rem - align4 len) l
    | isFalse _ => pure l
termination_by rem.toNat
decreasing_by exact _exact ▸ _ok.advance

theorem bitLoop_of_ok {mem : Mem} {na : Nat} {rem : Int} (ids : BitIds) (l : BitLocals)
    (ok : nla.Ok mem na rem) :
    bitLoop mem ids na rem l = (do
      let _ ← nlaOk mem na rem
      let l ← bitAttr mem ids na l
      let _ ← nlaLen mem na
      bitLoop mem ids (na + align4 (nla.declaredAt mem na)) (rem - align4 (nla.declaredAt mem na))
        l) := by
  rw [bitLoop, Traced.bind_of_val_eq (Subsingleton.elim _ (isTrue ok))]
  rfl

theorem bitLoop_of_not_ok {mem : Mem} {na : Nat} {rem : Int} (ids : BitIds) (l : BitLocals)
    (ok : ¬nla.Ok mem na rem) :
    bitLoop mem ids na rem l = (do
      let _ ← nlaOk mem na rem
      pure l) := by
  rw [bitLoop, Traced.bind_of_val_eq (Subsingleton.elim _ (isFalse ok))]

/-- The name of an entry of a bit set, as it is printed. -/
def bitName (mem : Mem) (name : Option (Nat × Nat)) : Render (Option CStr) :=
  match name with
  | some (name, nameLen) => do
      let s ← loadString mem name nameLen
      pure (some s)
  | none => pure none

/-- The line of an entry of a bit set. -/
def bitLine (idx : Option Nat) (name : Option CStr) (on : Bool) : Bytes :=
  lit "[" ++ padLeft (charByte ' ') 3 (decimal (idx.getD 0)) ++ lit "] " ++
    name.getD (lit "(no name)") ++ lit " = " ++ (if on then lit "on" else lit "off") ++ lit "\n"

/-- `try_render_bit_compact`. -/
def tryRenderBitCompact (mem : Mem) (bitOuter : Nat) (bitSet : AttrSetOverlay) (depth : Nat) :
    Render Bool :=
  match bitIds bitSet with
  | none => pure false
  | some ids => do
      let ⟨len, _⟩ ← nlaLen mem bitOuter
      let l ← bitLoop mem ids (bitOuter + 4) (len - 4 : Nat) ⟨none, none, false⟩
      tbIndent depth
      let name ← bitName mem l.name
      tbAppend (bitLine l.idx name l.valueSet)
      pure true

/-- The test of `render_attrs_recursive` for an entry of a bit set, which renders it. -/
def renderedCompact (mem : Mem) (na : Nat) (childSet : Option AttrSetOverlay) (depth : Nat) :
    Render Bool :=
  match childSet with
  | some child =>
      if child.setName = lit "BITSET_BIT" then tryRenderBitCompact mem na child depth
      else pure false
  | none => pure false

/-! ## Attributes -/

/-- The attribute is a nest without a set. -/
def renderUndeclared (mem : Mem) (na depth : Nat) : Render Unit := do
  tbIndent (depth + 1)
  let ⟨len, _⟩ ← nlaLen mem na
  tbAppend (lit "(nested, " ++ decimal (len - 4) ++
    lit (" bytes — schema not declared; add a schema " ++
      "alias if this attribute uses a known sub-set)\n"))

/-- What stands in front of a scalar. -/
def attrLabel (name : Option CStr) (t : UInt16) : Bytes :=
  match name with
  | some name => name ++ lit " = "
  | none => lit "[attr " ++ decimal t.toNat ++ lit "] = "

/-- The body of the loop of `render_attrs_recursive` once it knows the type, the name and
the set of the attribute, with the recursive call. -/
def renderNamed (mem : Mem) (na : Nat) (t : UInt16) (nestedFlag : Bool) (name : Option CStr)
    (childSet : Option AttrSetOverlay) (depth : Nat) (recursive : AttrSetOverlay → Render Unit) :
    Render Unit :=
  if nestedFlag ∨ childSet.isSome then do
    let compact ← renderedCompact mem na childSet depth
    if compact then pure ()
    else do
      tbIndent depth
      tbAppend (name.getD (lit "?") ++ lit ":\n")
      match childSet with
      | some child => recursive child
      | none => renderUndeclared mem na depth
  else do
    tbIndent depth
    tbAppend (attrLabel name t)
    renderScalar mem na

/-- The body of the loop of `render_attrs_recursive`, with the recursive call. -/
def renderAttr (mem : Mem) (na : Nat) (set : Option AttrSetOverlay) (all : Option FamilyOverlay)
    (depth : Nat) (recursive : AttrSetOverlay → Render Unit) : Render Unit := do
  let rawType ← nlaType mem na
  let t := rawType &&& nlaTypeMask
  let name := attrSetLookupName set t.toUInt32
  renderNamed mem na t (rawType &&& nlaFNested != 0) name (childSetOf all set name) depth recursive

/-- The loop of `render_attrs_recursive`. -/
def renderLoop (mem : Mem) (na : Nat) (rem : Int) (set : Option AttrSetOverlay)
    (all : Option FamilyOverlay) (depth : Nat) : Render Unit :=
  nlaOk mem na rem >>= fun
    | isTrue _ok => do
        renderAttr mem na set all depth fun child => do
          let ⟨len, _exact⟩ ← nlaLen mem na
          Traced.emit (.enter (depth + 1))
          renderLoop mem (na + 4) (len - 4 : Nat) (some child) all (depth + 1)
        let ⟨len, _exact⟩ ← nlaLen mem na
        renderLoop mem (na + align4 len) (rem - align4 len) set all depth
    | isFalse _ => pure ()
termination_by rem.toNat
decreasing_by
  · obtain ⟨long, _, within⟩ := _ok
    rw [← _exact] at within
    have header : (nla.header : Int) = 4 := rfl
    omega
  · exact _exact ▸ _ok.advance

/-- The recursive call of `render_attrs_recursive` on the payload of an attribute. -/
def renderNested (mem : Mem) (na : Nat) (all : Option FamilyOverlay) (depth : Nat)
    (child : AttrSetOverlay) : Render Unit := do
  let _ ← nlaLen mem na
  Traced.emit (.enter (depth + 1))
  renderLoop mem (na + 4) (nla.declaredAt mem na - 4 : Nat) (some child) all (depth + 1)

theorem renderLoop_of_ok {mem : Mem} {na : Nat} {rem : Int} (set : Option AttrSetOverlay)
    (all : Option FamilyOverlay) (depth : Nat) (ok : nla.Ok mem na rem) :
    renderLoop mem na rem set all depth = (do
      let _ ← nlaOk mem na rem
      renderAttr mem na set all depth (renderNested mem na all depth)
      let _ ← nlaLen mem na
      renderLoop mem (na + align4 (nla.declaredAt mem na)) (rem - align4 (nla.declaredAt mem na))
        set all depth) := by
  rw [renderLoop, Traced.bind_of_val_eq (Subsingleton.elim _ (isTrue ok))]
  rfl

theorem renderLoop_of_not_ok {mem : Mem} {na : Nat} {rem : Int} (set : Option AttrSetOverlay)
    (all : Option FamilyOverlay) (depth : Nat) (ok : ¬nla.Ok mem na rem) :
    renderLoop mem na rem set all depth = (do
      let _ ← nlaOk mem na rem
      pure ()) := by
  rw [renderLoop, Traced.bind_of_val_eq (Subsingleton.elim _ (isFalse ok))]

/-- `render_attrs_recursive`. -/
def renderAttrsRecursive (mem : Mem) (first : Nat) (totalLen : Int) (set : Option AttrSetOverlay)
    (all : Option FamilyOverlay) (depth : Nat) : Render Unit := do
  Traced.emit (.enter depth)
  renderLoop mem first totalLen set all depth

end Ykern.Genl
