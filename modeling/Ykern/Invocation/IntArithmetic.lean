import Ykern.Foundation.IntLoop
import Ykern.Invocation.Loops

/-!
# The `int` arithmetic of the message walks

Four functions walk the messages of a datagram: the three invocations, and the enumeration of
families (`MessageWalk`). On the way they evaluate `int` expressions that depend on the bytes
received: the number of bytes that remain after a message and after an attribute, the number
of attribute bytes of a message, the size of the payload of an attribute, and an error code
that is negated (`IntEvent`).

A walk over at most 65536 bytes ends whatever the bytes are, and lowers the number of bytes that
remain by a message header at least with every message it goes on from. All values but negated
error codes are values of an `int`. Negating -2147483648 overflows, and the enumeration frees its
buffer before it reads the code from it, so that the code it negates may be any: the negated codes
are values of an `int` exactly when the invocations come to no error with the least code, and the
enumeration to no error that answers its request (`MessageWalk.ints_iff`).
-/

set_option autoImplicit false

namespace Ykern.Invocation

open Genl Rtnl Netlink Overlay

/-! ## Values -/

/-- An evaluation of an `int` expression, or an advance with the number of bytes that remain
before and after it. -/
inductive IntEvent where
  /-- `NLMSG_NEXT`. -/
  | messageNext (before after : Int)
  /-- `attrs_len` and `attr_rem`. -/
  | attrsLen (value : Int)
  /-- `NLA_PAYLOAD`. -/
  | payload (value : Int)
  /-- `NLA_NEXT`. -/
  | attrNext (before after : Int)
  /-- `-err->error`. -/
  | code (value : Int)

namespace IntEvent

/-- The value of the expression. -/
def value : IntEvent → Int
  | .messageNext _ after | .attrNext _ after => after
  | .attrsLen value | .payload value | .code value => value

/-- The next message leaves fewer bytes by a header at least. -/
def Lowers : IntEvent → Prop
  | .messageNext before after => after + 16 ≤ before
  | _ => True

/-- The value is an `int`, and an advance to the next message lowers what remains. -/
def Safe (e : IntEvent) : Prop := e.Lowers ∧ IsInt e.value

/-- The value is an `int` unless it is a negated error code, and an advance to the next message
lowers what remains. -/
def Regular (e : IntEvent) : Prop := e.Lowers ∧ ((∃ code, e = .code code) ∨ IsInt e.value)

theorem Safe.regular {e : IntEvent} (safe : e.Safe) : e.Regular := ⟨safe.1, .inr safe.2⟩

end IntEvent

/-- `NLA_PAYLOAD` of the attribute at an address. -/
def payloadInt (mem : Mem) (na : Nat) : IntEvent := .payload (nla.declaredAt mem na - 4)

/-- The loop over attributes, with what its body evaluates. -/
def attrInts (mem : Mem) (steps : Nat) (each : Nat → Option (List IntEvent)) (na : Nat)
    (rem : Int) : Option (List IntEvent) :=
  nla.intWalk mem .attrNext each steps na rem

theorem nla_declaredAt_lt (mem : Mem) (na : Nat) : nla.declaredAt mem na < 2 ^ 16 :=
  (mem.load16 na).toNat_lt

theorem payloadInt_safe (mem : Mem) (na : Nat) : (payloadInt mem na).Safe := by
  have short := nla_declaredAt_lt mem na
  refine ⟨trivial, ?_, ?_⟩
  · show -2 ^ 31 ≤ (nla.declaredAt mem na - 4 : Int)
    omega
  · show (nla.declaredAt mem na - 4 : Int) < 2 ^ 31
    omega

theorem attrsLen_safe {v : Int} (low : -65536 ≤ v) (high : v ≤ 65536) :
    (IntEvent.attrsLen v).Safe := by
  refine ⟨trivial, ?_, ?_⟩
  · show -2 ^ 31 ≤ v
    omega
  · show v < 2 ^ 31
    omega

/-- **A loop over attributes ends** and evaluates values of an `int`, when its body does and it
starts with at most 65536 bytes. -/
theorem attrInts_settles {mem : Mem} {steps na : Nat} {rem : Int} (enough : 65536 < steps)
    (low : -2 ^ 31 ≤ rem) (high : rem ≤ 65536) {each : Nat → Option (List IntEvent)}
    (settles : ∀ a ∈ nla.walk mem na rem, Settles IntEvent.Safe (each a)) :
    Settles IntEvent.Safe (attrInts mem steps each na rem) := by
  have isInt : IsInt rem := ⟨low, by omega⟩
  refine Framing.intWalk_settles (by omega) isInt ?_ settles
  intro before after least lower within
  have header : (nla.header : Int) = 4 := rfl
  refine ⟨trivial, ?_, ?_⟩
  · show -2 ^ 31 ≤ after
    omega
  · show after < 2 ^ 31
    omega

/-- The loop over the payload of an attribute. -/
theorem attrInts_payload {mem : Mem} {steps na : Nat} (enough : 65536 < steps)
    {each : Nat → Option (List IntEvent)} (settles : ∀ a, Settles IntEvent.Safe (each a)) :
    Settles IntEvent.Safe (attrInts mem steps each (na + 4) (nla.declaredAt mem na - 4)) := by
  have short := nla_declaredAt_lt mem na
  exact attrInts_settles enough (by omega) (by omega) fun a _ => settles a

/-! ## Rendering -/

/-- The body of the loop of `try_render_bit_compact`. -/
def bitAttrInts (mem : Mem) (ids : BitIds) (na : Nat) : List IntEvent :=
  let t := (nlaTypeAt mem na).toUInt32
  (if t = ids.idx then [payloadInt mem na] else []) ++
    (if ¬(t = ids.idx ∧ 4 ≤ nlaPayloadAt mem na) ∧ t = ids.name then [payloadInt mem na] else [])

/-- The identifiers with which `render_attrs_recursive` renders an attribute as an entry of a bit
set, if it does. -/
def compactIds (childSet : Option AttrSetOverlay) : Option BitIds :=
  childSet.bind fun child => if child.setName = lit "BITSET_BIT" then bitIds child else none

/-- The body of the loop of `render_attrs_recursive`, with the recursive call. -/
def renderAttrInts (mem : Mem) (steps : Nat) (na : Nat) (set : Option AttrSetOverlay)
    (all : Option FamilyOverlay)
    (recursive : AttrSetOverlay → Nat → Int → Option (List IntEvent)) : Option (List IntEvent) :=
  let name := attrSetLookupName set (nlaTypeAt mem na).toUInt32
  let childSet := childSetOf all set name
  if rawTypeAt mem na &&& nlaFNested ≠ 0 ∨ childSet.isSome then
    match compactIds childSet with
    | some ids => do
        some ([payloadInt mem na] ++ (← attrInts mem steps
          (fun sub => some (bitAttrInts mem ids sub)) (na + 4) (nla.declaredAt mem na - 4)))
    | none =>
        match childSet with
        | some child => do
            some ([payloadInt mem na] ++ (← recursive child (na + 4) (nla.declaredAt mem na - 4)))
        | none => some [payloadInt mem na]
  else some [payloadInt mem na]

/-- `render_attrs_recursive`, with at most so many calls inside one another. -/
def renderInts (mem : Mem) (all : Option FamilyOverlay) (steps : Nat) :
    Nat → Option AttrSetOverlay → Nat → Int → Option (List IntEvent)
  | 0, _, _, _ => none
  | calls + 1, set, first, totalLen =>
      attrInts mem steps (fun na => renderAttrInts mem steps na set all fun child =>
        renderInts mem all steps calls (some child)) first totalLen

theorem bitAttrInts_safe (mem : Mem) (ids : BitIds) (na : Nat) :
    ∀ e ∈ bitAttrInts mem ids na, e.Safe := by
  have safe := payloadInt_safe mem na
  intro e member
  rcases List.mem_append.mp member with first | second
  · split at first
    · rwa [List.mem_singleton.mp first]
    · cases first
  · split at second
    · rwa [List.mem_singleton.mp second]
    · cases second

theorem renderAttrInts_settles {mem : Mem} {steps na : Nat} (enough : 65536 < steps)
    (set : Option AttrSetOverlay) (all : Option FamilyOverlay)
    {recursive : AttrSetOverlay → Nat → Int → Option (List IntEvent)}
    (settles : ∀ child, Settles IntEvent.Safe
      (recursive child (na + 4) (nla.declaredAt mem na - 4))) :
    Settles IntEvent.Safe (renderAttrInts mem steps na set all recursive) := by
  have safe := payloadInt_safe mem na
  have alone : ∀ e ∈ [payloadInt mem na], e.Safe := by simpa using safe
  unfold renderAttrInts
  dsimp only
  split
  · split
    · next ids _ =>
        exact Settles.after alone (attrInts_payload enough fun sub =>
          ⟨_, rfl, bitAttrInts_safe mem ids sub⟩)
    · split
      · next child _ => exact Settles.after alone (settles child)
      · exact .one safe
  · exact .one safe

/-- **Rendering ends** and evaluates values of an `int`: the payload of an attribute is shorter
than the bytes it is found in, so calls are not deeper than these bytes are many. -/
theorem renderInts_settles {mem : Mem} {steps : Nat} (all : Option FamilyOverlay)
    (enough : 65536 < steps) {calls : Nat} (set : Option AttrSetOverlay) {first : Nat}
    {totalLen : Int} (deep : totalLen.toNat < calls) (low : -2 ^ 31 ≤ totalLen)
    (high : totalLen ≤ 65536) :
    Settles IntEvent.Safe (renderInts mem all steps calls set first totalLen) := by
  induction calls generalizing set first totalLen with
  | zero => exact absurd deep (Nat.not_lt_zero _)
  | succ calls ih =>
      refine attrInts_settles enough low high ?_
      intro na member
      obtain ⟨_, covers, within⟩ := Framing.walk_within member
      have header : nla.header = 4 := rfl
      refine renderAttrInts_settles enough set all ?_
      intro child
      exact ih (some child) (by omega) (by omega) (by omega)

/-- A reply to a generic netlink operation. -/
def genlReplyInts (format : ReplyFormat) (steps : Nat) (buf : Mem) (rh : Nat) :
    Option (List IntEvent) :=
  let attrsLen := toInt (nlmsg.declaredAt buf rh) - 20
  match format.attrsSet with
  | some set => do
      some ([.attrsLen attrsLen] ++
        (← renderInts buf format.overlay steps steps (some set) (rh + 20) attrsLen))
  | none => some [.attrsLen attrsLen]

/-- A reply to an operation of the route namespace. -/
def rtnlReplyInts (op : RtnlOp) (steps : Nat) (buf : Mem) (nh : Nat) : Option (List IntEvent) :=
  let skip := align4 (rtnlOps op).hdrSkip
  let behind := toInt (nlmsg.declaredAt buf nh) - 16
  do some ([.attrsLen behind, .attrsLen (behind - skip)] ++
    (← attrInts buf steps (fun na => some [payloadInt buf na]) (nh + 16 + skip) (behind - skip)))

section Replies

variable {buf : Mem} {rh steps : Nat} (short : nlmsg.declaredAt buf rh ≤ 65536)
  (enough : 65536 < steps)

include short enough

theorem genlReplyInts_settles (format : ReplyFormat) :
    Settles IntEvent.Safe (genlReplyInts format steps buf rh) := by
  have declared : toInt (nlmsg.declaredAt buf rh) = nlmsg.declaredAt buf rh := toInt_eq (by omega)
  have safe : (IntEvent.attrsLen (nlmsg.declaredAt buf rh - 20)).Safe :=
    attrsLen_safe (by omega) (by omega)
  unfold genlReplyInts
  rw [declared]
  split
  · next set _ =>
      exact Settles.after (by simpa using safe) (renderInts_settles format.overlay enough (some set)
        (by omega) (by omega) (by omega))
  · exact .one safe

theorem rtnlReplyInts_settles (op : RtnlOp) :
    Settles IntEvent.Safe (rtnlReplyInts op steps buf rh) := by
  have declared : toInt (nlmsg.declaredAt buf rh) = nlmsg.declaredAt buf rh := toInt_eq (by omega)
  have skip : (rtnlOps op).hdrSkip ≤ 16 := by cases op <;> decide
  have behind : (IntEvent.attrsLen (nlmsg.declaredAt buf rh - 16)).Safe :=
    attrsLen_safe (by omega) (by omega)
  have rest : (IntEvent.attrsLen (nlmsg.declaredAt buf rh - 16 - (rtnlOps op).hdrSkip)).Safe :=
    attrsLen_safe (by omega) (by omega)
  unfold rtnlReplyInts
  simp only [align4_hdrSkip, declared]
  refine Settles.after (by simpa using ⟨behind, rest⟩) ?_
  exact attrInts_settles enough (by omega) (by omega) fun na _ => .one (payloadInt_safe buf na)

end Replies

/-! ## Descriptions of families -/

/-- The loop over the attributes of an element of a nest. The types are those of the attributes
whose payload is looked at. -/
def elementInts (mem : Mem) (steps : Nat) (types : List UInt16) (cur : Nat) :
    Option (List IntEvent) := do
  some ([payloadInt mem cur] ++ (← attrInts mem steps
    (fun sub => some (if nlaTypeAt mem sub ∈ types then [payloadInt mem sub] else []))
    (cur + 4) (nla.declaredAt mem cur - 4)))

/-- The loops of `parse_ops_attr` and `parse_mcast_attr`: one counts the elements, and one fills
the array. Without elements there is no second loop, which would evaluate nothing. -/
def nestInts (mem : Mem) (steps : Nat) (types : List UInt16) (outer : Nat) :
    Option (List IntEvent) := do
  some (
    (← attrInts mem steps (fun _ => some []) (outer + 4) (nla.declaredAt mem outer - 4)) ++
    (← attrInts mem steps (elementInts mem steps types) (outer + 4) (nla.declaredAt mem outer - 4)))

/-- `parse_ops_attr` and `parse_mcast_attr`. -/
def parseNestInts (mem : Mem) (steps : Nat) (types : List UInt16) (outer : Nat) :
    Option (List IntEvent) :=
  if (nla.declaredAt mem outer - 4 : Int) ≤ 0 then some [payloadInt mem outer]
  else do some ([payloadInt mem outer] ++ (← nestInts mem steps types outer))

/-- The body of the loop of `process_family_msg`. -/
def familyAttrInts (mem : Mem) (steps : Nat) (na : Nat) : Option (List IntEvent) :=
  if nlaTypeAt mem na = ctrlAttrOps then parseNestInts mem steps [ctrlAttrOpId, ctrlAttrOpFlags] na
  else if nlaTypeAt mem na = ctrlAttrMcastGroups then
    parseNestInts mem steps [ctrlAttrMcastGrpId, ctrlAttrMcastGrpName] na
  else if nlaTypeAt mem na ∈ [ctrlAttrFamilyName, ctrlAttrFamilyId, ctrlAttrVersion,
      ctrlAttrHdrsize, ctrlAttrMaxattr] then some [payloadInt mem na]
  else some []

/-- `process_family_msg`. -/
def familyInts (mem : Mem) (steps : Nat) (nh : Nat) : Option (List IntEvent) :=
  if nlmsg.declaredAt mem nh < 20 then some []
  else if mem (nh + 16) ≠ ctrlCmdNewfamily then some []
  else do
    let attrsLen := toInt (nlmsg.declaredAt mem nh) - 20
    some ([.attrsLen attrsLen] ++
      (← attrInts mem steps (familyAttrInts mem steps) (nh + 20) attrsLen))

theorem parseNestInts_settles {mem : Mem} {steps : Nat} (enough : 65536 < steps)
    (types : List UInt16) (outer : Nat) :
    Settles IntEvent.Safe (parseNestInts mem steps types outer) := by
  have alone : ∀ na, ∀ e ∈ [payloadInt mem na], e.Safe := fun na => by
    simpa using payloadInt_safe mem na
  have element : ∀ cur, Settles IntEvent.Safe (elementInts mem steps types cur) := by
    intro cur
    refine Settles.after (alone cur) (attrInts_payload enough ?_)
    intro sub
    split
    · exact .one (payloadInt_safe mem sub)
    · exact .nil
  unfold parseNestInts
  split
  · exact .one (payloadInt_safe mem outer)
  · exact Settles.after (alone outer)
      (.andThen (attrInts_payload enough fun _ => .nil) (attrInts_payload enough element))

theorem familyInts_settles {buf : Mem} {nh steps : Nat} (short : nlmsg.declaredAt buf nh ≤ 65536)
    (enough : 65536 < steps) : Settles IntEvent.Safe (familyInts buf steps nh) := by
  unfold familyInts
  split
  · exact .nil
  split
  · exact .nil
  · rw [toInt_eq (by omega)]
    refine Settles.after (by simpa using attrsLen_safe (by omega) (by omega)) ?_
    refine attrInts_settles enough (by omega) (by omega) ?_
    intro na _
    unfold familyAttrInts
    split
    · exact parseNestInts_settles enough _ na
    split
    · exact parseNestInts_settles enough _ na
    split
    · exact .one (payloadInt_safe buf na)
    · exact .nil

/-! ## Messages -/

/-- A walk over the messages of a datagram, with what the function has looked up before and the
state of its loop. -/
inductive MessageWalk where
  | invocation (loop : InvocationLoop) (strerror : Int → CStr) (l : InvokeLocals)
  | populate (base : CStr) (files : CStr → OverlayFile) (seq : UInt32) (l : PopulateLocals)

namespace MessageWalk

/-- The negation of the error code of a message. -/
def codeInt (mem : Mem) (rh : Nat) : IntEvent := .code (-toInt (mem.load32 (rh + 16)).toNat)

/-- What the three invocations evaluate for a reply. -/
def replyInts (loop : InvocationLoop) (strerror : Int → CStr) : Nat → Mem → Nat →
    Option (List IntEvent) :=
  match loop with
  | .ethtoolGet op family schema args =>
      genlReplyInts (ethtoolFormat op family schema args strerror)
  | .genericGenl op family args => genlReplyInts (genericFormat op family args strerror)
  | .rtnl op => rtnlReplyInts op

/-- What the three invocations evaluate for a message. -/
def invocationInts (loop : InvocationLoop) (strerror : Int → CStr) (steps : Nat) (buf : Mem)
    (rh : Nat) : Option (List IntEvent) :=
  if buf.load16 (rh + 4) = nlmsgDone then some []
  else if buf.load16 (rh + 4) = nlmsgError then
    if buf.load32 (rh + 16) = 0 then some [] else some [codeInt buf rh]
  else replyInts loop strerror steps buf rh

/-- What `ns_populate_children` evaluates for a message. It negates an error code of 0 as well,
and it frees the buffer before it reads the code: `freed` is what is in that memory then. -/
def populateInts (seq : UInt32) (freed : Mem) (steps : Nat) (buf : Mem) (nh : Nat) :
    Option (List IntEvent) :=
  if buf.load32 (nh + 8) ≠ seq then some []
  else if buf.load16 (nh + 4) = nlmsgDone then some []
  else if buf.load16 (nh + 4) = nlmsgError then some [codeInt freed nh]
  else familyInts buf steps nh

/-- What a walk evaluates, from the start of the buffer over so many bytes, when this is in the
memory of the buffer once it is freed. -/
def ints (walk : MessageWalk) (freed : Mem) (steps : Nat) (buf : Mem) (n : Nat) :
    Option (List IntEvent) :=
  match walk with
  | .invocation loop strerror l =>
      (nlmsg.intLoop buf .messageNext (invocationInts loop strerror steps buf)
        (loop.body strerror buf) steps l 0 n).map Prod.fst
  | .populate base files seq l =>
      (nlmsg.intLoop buf .messageNext (populateInts seq freed steps buf)
        (populateBody base files seq buf) steps l 0 n).map Prod.fst

/-- The message at an address ends the walk. -/
def leaves (walk : MessageWalk) (buf : Mem) (rh : Nat) : Bool :=
  match walk with
  | .invocation loop _ _ =>
      buf.load16 (rh + 4) == nlmsgDone ||
        (if buf.load16 (rh + 4) = nlmsgError then buf.load32 (rh + 16) != 0 else !loop.dumpMode)
  | .populate _ _ seq _ =>
      buf.load32 (rh + 8) == seq && (buf.load16 (rh + 4) == nlmsgDone ||
        buf.load16 (rh + 4) == nlmsgError || decide (nlmsg.declaredAt buf rh < 20))

/-- The messages a walk comes to: those up to the first that ends it. -/
def messages (walk : MessageWalk) (buf : Mem) (n : Nat) : List Nat :=
  reached (walk.leaves buf) (nlmsg.walk buf 0 n)

/-- The walk looks at the message at an address. The enumeration skips messages with other
sequence numbers. -/
def looksAt (walk : MessageWalk) (buf : Mem) (rh : Nat) : Bool :=
  match walk with
  | .invocation _ _ _ => true
  | .populate _ _ seq _ => buf.load32 (rh + 8) == seq

/-- The memory the error code of a message is read from. -/
def codeSource (walk : MessageWalk) (freed buf : Mem) : Mem :=
  match walk with
  | .invocation _ _ _ => buf
  | .populate _ _ _ _ => freed

/-- The message at an address is about an error, it is looked at, and the code that is read is the
least one. -/
def LeastCode (walk : MessageWalk) (freed buf : Mem) (rh : Nat) : Prop :=
  walk.looksAt buf rh = true ∧ buf.load16 (rh + 4) = nlmsgError ∧
    (walk.codeSource freed buf).load32 (rh + 16) = 0x80000000

/-- The negated code of the message at an address may overflow: the message is about an error, and
has the least code, or is looked at by the enumeration, which reads a code from freed memory. -/
def MayOverflow (walk : MessageWalk) (buf : Mem) (rh : Nat) : Prop :=
  buf.load16 (rh + 4) = nlmsgError ∧
    match walk with
    | .invocation _ _ _ => buf.load32 (rh + 16) = 0x80000000
    | .populate _ _ seq _ => buf.load32 (rh + 8) = seq

/-- Some memory has the least code at an address. -/
theorem exists_leastCode (a : Nat) : ∃ mem : Mem, mem.load32 a = 0x80000000 := by
  refine ⟨fun b => if b = a + 3 then 128 else 0, ?_⟩
  simp only [Mem.load32, if_pos, if_neg (show a ≠ a + 3 by omega),
    if_neg (show a + 1 ≠ a + 3 by omega), if_neg (show a + 2 ≠ a + 3 by omega)]
  decide

theorem mayOverflow_iff (walk : MessageWalk) (buf : Mem) (rh : Nat) :
    walk.MayOverflow buf rh ↔ ∃ freed, walk.LeastCode freed buf rh := by
  cases walk with
  | invocation loop strerror l =>
      constructor
      · rintro ⟨error, least⟩
        exact ⟨buf, rfl, error, least⟩
      · rintro ⟨_, -, error, least⟩
        exact ⟨error, least⟩
  | populate base files seq l =>
      constructor
      · rintro ⟨error, same⟩
        obtain ⟨freed, least⟩ := exists_leastCode (rh + 16)
        exact ⟨freed, beq_iff_eq.mpr same, error, least⟩
      · rintro ⟨_, same, error, -⟩
        exact ⟨error, beq_iff_eq.mp same⟩

/-! ## One message -/

/-- The negation of a code is an `int` unless the code is the least one. -/
theorem isInt_neg_toInt (code : UInt32) : IsInt (-toInt code.toNat) ↔ code ≠ 0x80000000 := by
  have range := code.toNat_lt
  have least : code = 0x80000000 ↔ code.toNat = 2 ^ 31 := by
    rw [← UInt32.toNat_inj]
    rfl
  rw [Ne, least, IsInt, toInt]
  split <;> omega

/-- The end of a dump is not about an error. -/
theorem not_leastCode_of_done {walk : MessageWalk} {freed buf : Mem} {rh : Nat}
    (done : buf.load16 (rh + 4) = nlmsgDone) : ¬walk.LeastCode freed buf rh := by
  rintro ⟨-, error, -⟩
  rw [done] at error
  exact absurd error (by decide)

/-- What is evaluated for a message: the computation ends, its values are regular, and negated
codes are values of an `int` as well unless the code is the least one. -/
def Turn (events : Option (List IntEvent)) (least : Prop) : Prop :=
  ∃ here, events = some here ∧ (∀ e ∈ here, e.Regular) ∧ ((∀ e ∈ here, e.Safe) ↔ ¬least)

theorem Turn.of_settles {events : Option (List IntEvent)} {least : Prop}
    (settles : Settles IntEvent.Safe events) (other : ¬least) : Turn events least := by
  obtain ⟨here, evaluated, safe⟩ := settles
  exact ⟨here, evaluated, fun e member => (safe e member).regular, fun _ => other, fun _ => safe⟩

theorem codeInt_turn {mem : Mem} {rh : Nat} {least : Prop}
    (least_iff : least ↔ mem.load32 (rh + 16) = 0x80000000) :
    Turn (some [codeInt mem rh]) least := by
  refine ⟨[codeInt mem rh], rfl, ?_, ?_⟩
  · simp [codeInt, IntEvent.Regular, IntEvent.Lowers]
  rw [least_iff, ← Ne, ← isInt_neg_toInt]
  simp [codeInt, IntEvent.Safe, IntEvent.Lowers, IntEvent.value]

section Turns

variable {buf : Mem} {rh steps : Nat} (short : nlmsg.declaredAt buf rh ≤ 65536)
  (enough : 65536 < steps)

include short enough

theorem invocationInts_turn (freed : Mem) (loop : InvocationLoop) (strerror : Int → CStr)
    (l : InvokeLocals) : Turn (invocationInts loop strerror steps buf rh)
      ((invocation loop strerror l).LeastCode freed buf rh) := by
  have replies : Settles IntEvent.Safe (replyInts loop strerror steps buf rh) := by
    cases loop with
    | ethtoolGet op family schema args =>
        exact genlReplyInts_settles short enough (ethtoolFormat op family schema args strerror)
    | genericGenl op family args =>
        exact genlReplyInts_settles short enough (genericFormat op family args strerror)
    | rtnl op => exact rtnlReplyInts_settles short enough op
  unfold invocationInts
  split
  · next done => exact .of_settles .nil (not_leastCode_of_done done)
  split
  · next error =>
      split
      · next zero =>
          refine .of_settles .nil ?_
          rintro ⟨-, -, code⟩
          have code : buf.load32 (rh + 16) = 0x80000000 := code
          rw [zero] at code
          exact absurd code (by decide)
      · exact codeInt_turn ⟨fun least => least.2.2, fun code => ⟨rfl, error, code⟩⟩
  · next other => exact .of_settles replies fun least => other least.2.1

theorem populateInts_turn (freed : Mem) (base : CStr) (files : CStr → OverlayFile) (seq : UInt32)
    (l : PopulateLocals) : Turn (populateInts seq freed steps buf rh)
      ((populate base files seq l).LeastCode freed buf rh) := by
  unfold populateInts
  split
  · next stray => exact .of_settles .nil fun least => stray (beq_iff_eq.mp least.1)
  · next same =>
      rw [not_not] at same
      split
      · next done => exact .of_settles .nil (not_leastCode_of_done done)
      split
      · next error =>
          exact codeInt_turn
            ⟨fun least => least.2.2, fun code => ⟨beq_iff_eq.mpr same, error, code⟩⟩
      · next other =>
          exact .of_settles (familyInts_settles short enough) fun least => other least.2.1

end Turns

/-! ## Walks -/

/-- A message ends a walk of an invocation when its body does not go on. -/
theorem invocation_leaves (loop : InvocationLoop) (strerror : Int → CStr) (buf : Mem)
    (l l' : InvokeLocals) (rh : Nat) : (invocation loop strerror l).leaves buf rh = true ↔
      ∀ next, loop.body strerror buf l' rh ≠ .next next := by
  rw [InvocationLoop.body_eq, replyRendered, InvocationLoop.dumpMode_format]
  by_cases done : buf.load16 (rh + 4) = nlmsgDone
  · simp [leaves, done]
  by_cases error : buf.load16 (rh + 4) = nlmsgError
  · by_cases code : buf.load32 (rh + 16) = 0
    · simp [leaves, error, code, nlmsgDone, nlmsgError]
    · simp [leaves, error, code, nlmsgDone, nlmsgError]
  · cases mode : loop.dumpMode with
    | true => simp [leaves, done, error, mode]
    | false => simp [leaves, done, error, mode]

/-- A message ends the walk of the enumeration when its body does not go on. -/
theorem populate_leaves (base : CStr) (files : CStr → OverlayFile) (seq : UInt32) (buf : Mem)
    (l l' : PopulateLocals) (nh : Nat) : (populate base files seq l).leaves buf nh = true ↔
      ∀ next, populateBody base files seq buf l' nh ≠ .next next := by
  unfold populateBody
  by_cases stray : buf.load32 (nh + 8) = seq
  · by_cases done : buf.load16 (nh + 4) = nlmsgDone
    · simp [leaves, stray, done]
    by_cases error : buf.load16 (nh + 4) = nlmsgError
    · simp [leaves, stray, error, nlmsgDone, nlmsgError]
    · by_cases truncated : nlmsg.declaredAt buf nh < 20
      · simp [leaves, stray, done, error, truncated, processFamilyMsg]
      · obtain ⟨children, parsed⟩ :
            ∃ children, processFamilyMsg base files buf nh l'.children = .ok children := by
          unfold processFamilyMsg
          rw [if_neg truncated]
          dsimp only
          split
          · exact ⟨_, rfl⟩
          split
          · exact ⟨_, rfl⟩
          · exact ⟨_, rfl⟩
        simp [leaves, stray, done, error, truncated, parsed]
  · simp [leaves, stray]

/-- **A walk over messages** ends, and its values are regular. They are all values of an `int`
unless it comes to a message with the least code. -/
theorem intLoop_turns {σ ρ : Type} {buf : Mem} {each : Nat → Option (List IntEvent)}
    {body : σ → Nat → Control σ ρ} {leaves : Nat → Bool} {least : Nat → Prop} {n steps : Nat}
    (leaves_iff : ∀ s a, leaves a = true ↔ ∀ s', body s a ≠ .next s') (short : n ≤ 65536)
    (enough : 65536 < steps)
    (turns : ∀ rh, nlmsg.declaredAt buf rh ≤ 65536 → Turn (each rh) (least rh)) (s : σ) :
    ∃ events, (nlmsg.intLoop buf .messageNext each body steps s 0 n).map Prod.fst = some events ∧
      (∀ e ∈ events, e.Regular) ∧
      ((∀ e ∈ events, e.Safe) ↔ ∀ rh ∈ reached leaves (nlmsg.walk buf 0 n), ¬least rh) := by
  have isInt : IsInt n := by
    constructor
    · omega
    · omega
  have turn : ∀ rh ∈ reached leaves (nlmsg.walk buf 0 n), Turn (each rh) (least rh) := by
    intro rh member
    obtain ⟨_, _, within⟩ := Framing.walk_within ((reached_sublist leaves _).subset member)
    exact turns rh (by omega)
  have ends : ∀ rh ∈ reached leaves (nlmsg.walk buf 0 n), ∃ here, each rh = some here := by
    intro rh member
    obtain ⟨here, evaluated, _⟩ := turn rh member
    exact ⟨here, evaluated⟩
  have steps_enough : (n : Int).toNat < steps := by omega
  obtain ⟨events, run, iff⟩ :=
    @Framing.intLoop_spec nlmsg buf σ ρ IntEvent .messageNext each body leaves leaves_iff steps s
      0 n steps_enough isInt ends
  have advance (before after : Int) (least : -3 ≤ after) (lower : after + nlmsg.header ≤ before)
      (within : before ≤ n) : (IntEvent.messageNext before after).Safe := by
    have header : (nlmsg.header : Int) = 16 := rfl
    refine ⟨lower, ?_, ?_⟩
    · show -2 ^ 31 ≤ after
      omega
    · show after < 2 ^ 31
      omega
  refine ⟨events, by rw [run]; rfl, ?_, ?_⟩
  · rw [iff IntEvent.Regular fun before after least lower within =>
      (advance before after least lower within).regular]
    intro rh member here evaluated
    obtain ⟨here', evaluated', regular, _⟩ := turn rh member
    obtain rfl := Option.some.inj (evaluated.symm.trans evaluated')
    exact regular
  · rw [iff IntEvent.Safe advance]
    constructor
    · intro safe rh member
      obtain ⟨here, evaluated, _, safe_iff⟩ := turn rh member
      exact safe_iff.mp (safe rh member here evaluated)
    · intro other rh member here evaluated
      obtain ⟨here', evaluated', _, safe_iff⟩ := turn rh member
      obtain rfl := Option.some.inj (evaluated.symm.trans evaluated')
      exact safe_iff.mpr (other rh member)

/-- What a walk evaluates, for what is in the memory of the buffer once it is freed. -/
theorem ints_turns (walk : MessageWalk) (freed : Mem) (arrival : Arrival) {steps : Nat}
    (enough : 65536 < steps) :
    ∃ events, walk.ints freed steps arrival.buf arrival.datagram.bytes.length = some events ∧
      (∀ e ∈ events, e.Regular) ∧ ((∀ e ∈ events, e.Safe) ↔
        ∀ rh ∈ walk.messages arrival.buf arrival.datagram.bytes.length,
          ¬walk.LeastCode freed arrival.buf rh) := by
  cases walk with
  | invocation loop strerror l =>
      exact intLoop_turns (fun l' a => invocation_leaves loop strerror arrival.buf l l' a)
        arrival.datagram.fits enough
        (fun rh short => invocationInts_turn short enough freed loop strerror l) l
  | populate base files seq l =>
      exact intLoop_turns (fun l' a => populate_leaves base files seq arrival.buf l l' a)
        arrival.datagram.fits enough
        (fun rh short => populateInts_turn short enough freed base files seq l) l

/-- **The `int` arithmetic of the message walks.** Whatever was received, and whatever is in the
buffer behind it and in its memory once it is freed, a walk ends, and lowers the number of bytes
that remain by a message header at least with every message it goes on from; and all it evaluates
but negated error codes are values of an `int`. The codes are as well, whatever is in freed memory,
if and only if no message it comes to is about an error with the code -2147483648, or for the
enumeration, about an error at all. -/
theorem ints_iff (walk : MessageWalk) (arrival : Arrival) {steps : Nat} (enough : 65536 < steps) :
    (∀ freed, ∃ events,
      walk.ints freed steps arrival.buf arrival.datagram.bytes.length = some events ∧
        ∀ e ∈ events, e.Lowers ∧ ((∃ code, e = .code code) ∨ IsInt e.value)) ∧
    ((∀ freed, ∃ events,
      walk.ints freed steps arrival.buf arrival.datagram.bytes.length = some events ∧
        ∀ e ∈ events, e.Lowers ∧ IsInt e.value) ↔
      ∀ rh ∈ walk.messages arrival.buf arrival.datagram.bytes.length,
        ¬walk.MayOverflow arrival.buf rh) := by
  have safe_iff (freed : Mem) : (∃ events,
      walk.ints freed steps arrival.buf arrival.datagram.bytes.length = some events ∧
        ∀ e ∈ events, e.Safe) ↔
      ∀ rh ∈ walk.messages arrival.buf arrival.datagram.bytes.length,
        ¬walk.LeastCode freed arrival.buf rh := by
    obtain ⟨events, run, -, safe⟩ := walk.ints_turns freed arrival enough
    rw [← safe, run]
    simp
  refine ⟨?_, ?_⟩
  · intro freed
    obtain ⟨events, run, regular, -⟩ := walk.ints_turns freed arrival enough
    exact ⟨events, run, regular⟩
  · refine (forall_congr' safe_iff).trans ?_
    simp only [mayOverflow_iff, not_exists]
    exact ⟨fun never rh member freed => never freed rh member,
      fun never freed rh member => never rh member freed⟩

/-- A message about an error with another sequence number is skipped, also when the least code
would be read. -/
theorem stray_leastCode :
    ∃ events, (populate [] (fun _ => .absent) 1 ⟨[], []⟩).ints
        (Mem.place (fun _ => 0) [0, 0, 0, 128] 16) 65537
        (Mem.place (fun _ => 0) [20, 0, 0, 0, 2, 0, 0, 0, 0, 0, 0, 0, 0, 0, 0, 0, 0, 0, 0, 128] 0)
        20 = some events ∧ ∀ e ∈ events, e.Lowers ∧ IsInt e.value := by
  refine ((populate [] (fun _ => .absent) 1 ⟨[], []⟩).ints_iff
    ⟨⟨[20, 0, 0, 0, 2, 0, 0, 0, 0, 0, 0, 0, 0, 0, 0, 0, 0, 0, 0, 128], by decide⟩, fun _ => 0⟩
    (Nat.lt_succ_self 65536)).2.mpr ?_ _
  intro rh member overflow
  have first := (reached_sublist _ _).subset member
  rw [Framing.walk_of_ok (by decide), Framing.walk_of_not_ok (by decide)] at first
  obtain rfl := List.mem_singleton.mp first
  exact absurd overflow.2 (by decide)

/-- A walk that evaluates one negated code, which overflows, does not stay in range. -/
theorem not_safe_of_code {walk : MessageWalk} {freed buf : Mem} {n : Nat} {mem : Mem}
    (run : ∀ steps, walk.ints freed (steps + 1) buf n = some [codeInt mem 0])
    (overflow : ¬IsInt (codeInt mem 0).value) (steps : Nat) :
    ¬∃ events, walk.ints freed steps buf n = some events ∧ ∀ e ∈ events, e.Lowers ∧ IsInt e.value := by
  rintro ⟨events, ran, safe⟩
  cases steps with
  | zero => cases walk <;> cases ran
  | succ steps =>
      rw [run] at ran
      obtain rfl := Option.some.inj ran
      exact overflow (safe _ List.mem_cons_self).2

/-- The invocations negate the least code when a message about an error carries it. The
enumeration may come to negate it for a message with the code -2, which it reads from freed
memory. -/
theorem leastCode_overflows :
    (∃ arrival : Arrival,
      arrival.datagram.bytes = [20, 0, 0, 0, 2, 0, 0, 0, 0, 0, 0, 0, 0, 0, 0, 0, 0, 0, 0, 128] ∧
        ∀ loop strerror l freed steps, ¬∃ events,
          (invocation loop strerror l).ints freed steps arrival.buf arrival.datagram.bytes.length =
            some events ∧ ∀ e ∈ events, e.Lowers ∧ IsInt e.value) ∧
    ∃ arrival : Arrival,
      arrival.datagram.bytes =
          [20, 0, 0, 0, 2, 0, 0, 0, 0, 0, 0, 0, 0, 0, 0, 0, 254, 255, 255, 255] ∧
        ∃ freed, ∀ base files l steps, ¬∃ events,
          (populate base files 0 l).ints freed steps arrival.buf arrival.datagram.bytes.length =
            some events ∧ ∀ e ∈ events, e.Lowers ∧ IsInt e.value := by
  refine ⟨?_, ?_⟩
  · obtain ⟨arrival, bytes, ok, notDone, error, code, overflow⟩ : ∃ arrival : Arrival,
        arrival.datagram.bytes = [20, 0, 0, 0, 2, 0, 0, 0, 0, 0, 0, 0, 0, 0, 0, 0, 0, 0, 0, 128] ∧
          nlmsg.Ok arrival.buf 0 arrival.datagram.bytes.length ∧
          arrival.buf.load16 (0 + 4) ≠ nlmsgDone ∧ arrival.buf.load16 (0 + 4) = nlmsgError ∧
          arrival.buf.load32 (0 + 16) ≠ 0 ∧ ¬IsInt (codeInt arrival.buf 0).value :=
      ⟨⟨⟨[20, 0, 0, 0, 2, 0, 0, 0, 0, 0, 0, 0, 0, 0, 0, 0, 0, 0, 0, 128], by decide⟩, fun _ => 0⟩,
        rfl, by decide, by decide, by decide, by decide, by decide⟩
    refine ⟨arrival, bytes, fun loop strerror l freed => not_safe_of_code (fun steps => ?_) overflow⟩
    have evaluated : invocationInts loop strerror (steps + 1) arrival.buf 0 =
        some [codeInt arrival.buf 0] := by
      rw [invocationInts, if_neg notDone, if_pos error, if_neg code]
    have leaving := (invocation_leaves loop strerror arrival.buf l l 0).mp (by
      simp [leaves, error, code])
    rw [ints, Framing.intLoop_left ok evaluated leaving]
  · obtain ⟨arrival, bytes, ok, same, notDone, error⟩ : ∃ arrival : Arrival,
        arrival.datagram.bytes =
            [20, 0, 0, 0, 2, 0, 0, 0, 0, 0, 0, 0, 0, 0, 0, 0, 254, 255, 255, 255] ∧
          nlmsg.Ok arrival.buf 0 arrival.datagram.bytes.length ∧
          arrival.buf.load32 (0 + 8) = 0 ∧ arrival.buf.load16 (0 + 4) ≠ nlmsgDone ∧
          arrival.buf.load16 (0 + 4) = nlmsgError :=
      ⟨⟨⟨[20, 0, 0, 0, 2, 0, 0, 0, 0, 0, 0, 0, 0, 0, 0, 0, 254, 255, 255, 255], by decide⟩,
        fun _ => 0⟩, rfl, by decide, by decide, by decide, by decide⟩
    obtain ⟨freed, least⟩ := exists_leastCode 16
    have overflow : ¬IsInt (codeInt freed 0).value := fun isInt =>
      (isInt_neg_toInt _).mp isInt least
    refine ⟨arrival, bytes, freed, fun base files l => not_safe_of_code (fun steps => ?_) overflow⟩
    have evaluated : populateInts 0 freed (steps + 1) arrival.buf 0 = some [codeInt freed 0] := by
      rw [populateInts, if_neg (not_not.mpr same), if_neg notDone, if_pos error]
    have leaving := (populate_leaves base files 0 arrival.buf l l 0).mp (by
      simp [leaves, same, error])
    rw [ints, Framing.intLoop_left ok evaluated leaving]

end MessageWalk

end Ykern.Invocation
