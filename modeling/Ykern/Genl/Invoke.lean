import Ykern.Genl.Namespace
import Ykern.Genl.Render
import Ykern.Genl.RenderMeaning
import Ykern.Genl.Request

/-!
# Invoking operations

Both invocations send their request and receive replies until they have what they
wait for: the end of the dump, or one reply to a request that is not a dump. Each
reply is rendered. The sequence numbers of the messages are not looked at
(`invokeBody`).

The receive loops differ only in their texts and in the set they render replies with
(`ReplyFormat`). What they append for a reply depends only on its bytes
(`invokeBody_eq`).
-/

set_option autoImplicit false

namespace Ykern.Genl

open Overlay Netlink

/-- The state of the receive loops: the text, the number of replies and, for the record,
the replies that were rendered. -/
structure InvokeLocals where
  text : Bytes
  replyCount : Nat
  rendered : List Bytes

/-- What the receive loops differ in. -/
structure ReplyFormat where
  dumpMode : Bool
  /-- The set replies are rendered with. -/
  attrsSet : Option AttrSetOverlay
  overlay : Option FamilyOverlay
  /-- What the text of a kernel error starts with. -/
  subject : CStr
  strerror : Int → CStr

/-- Render the attributes of a reply. Without a set only their length is told. -/
def renderReply (format : ReplyFormat) (buf : Mem) (first : Nat) (attrsLen : Int) : Bytes :=
  match format.attrsSet with
  | some set => textOf (renderAttrsRecursive buf first attrsLen (some set) format.overlay 1)
  | none => lit "  (response carries " ++ decimalInt attrsLen ++
      lit (" bytes of attributes; " ++ "no ATTRS metadata to decode names — regen overlay)\n")

/-- The heading of a reply in a dump. -/
def entryHeading (format : ReplyFormat) (entry : Nat) : Bytes :=
  if format.dumpMode then lit "\n--- entry " ++ decimal entry ++ lit " ---\n" else []

/-- `-err->error`, of the bits of an error code. C does not define the negation of the least
`int`; here it wraps around to itself. -/
def negatedCode (error : UInt32) : Int := toInt (-error).toNat

theorem negatedCode_eq {error : UInt32} (defined : error ≠ 0x80000000) :
    negatedCode error = -toInt error.toNat := by
  have range := error.toNat_lt
  have least : error.toNat ≠ 2 ^ 31 := fun same => defined (UInt32.toNat_inj.mp same)
  have size : UInt32.size = 2 ^ 32 := rfl
  rw [negatedCode, UInt32.toNat_neg, size, toInt, toInt]
  split_ifs <;> omega

/-- The text of a kernel error. -/
def kernelErrorText (format : ReplyFormat) (code : Int) (replyCount : Nat) : CStr :=
  format.subject ++ lit ": kernel returned errno " ++ decimalInt code ++ lit " (" ++
    format.strerror code ++ lit ") after " ++ decimal replyCount ++ lit " " ++
    (if replyCount = 1 then lit "reply" else lit "replies")

/-- A reply was rendered. Without a dump it is the only one. -/
def replyRendered (format : ReplyFormat) (l : InvokeLocals) (text reply : Bytes) :
    Control InvokeLocals (InvokeLocals × Except Error CStr) :=
  let l : InvokeLocals :=
    { text := l.text ++ entryHeading format (l.replyCount + 1) ++ text
      replyCount := l.replyCount + 1
      rendered := l.rendered ++ [reply] }
  if format.dumpMode then .next l else .stop l

/-- The body of the receive loops of `invoke_ethtool_get` and `invoke_generic_genl`. -/
def invokeBody (format : ReplyFormat) (buf : Mem) (l : InvokeLocals) (rh : Nat) :
    Control InvokeLocals (InvokeLocals × Except Error CStr) :=
  if buf.load16 (rh + 4) = nlmsgDone then .stop l
  else if buf.load16 (rh + 4) = nlmsgError then
    if buf.load32 (rh + 16) = 0 then .next l
    else
      let code := negatedCode (buf.load32 (rh + 16))
      .done (l, .ok (kernelErrorText format code l.replyCount))
  else
    replyRendered format l (renderReply format buf (rh + 20) (toInt (nlmsg.declaredAt buf rh) - 20))
      (nlmsg.recordAt buf rh)

/-- A receive loop, with the text in front of the replies. -/
def invokeLoop (format : ReplyFormat) (header : Bytes) (recvFailed : Error)
    (queue : List Datagram) (fails : Option Nat) (buf : Mem) :
    Reception InvokeLocals (InvokeLocals × Except Error CStr) :=
  receiveLoop (invokeBody format) (fun l => (l, .error recvFailed)) false queue fails buf
    ⟨header, 0, []⟩

/-! ## Messages -/

/-- The text of the attributes of a reply. -/
def replyText (format : ReplyFormat) (attrs : Bytes) (attrsLen : Int) : Bytes :=
  match format.attrsSet with
  | some set => streamText (some set) format.overlay 1 attrs
  | none => lit "  (response carries " ++ decimalInt attrsLen ++
      lit (" bytes of attributes; " ++ "no ATTRS metadata to decode names — regen overlay)\n")

theorem renderReply_eq (format : ReplyFormat) (buf : Mem) (first : Nat) (attrsLen : Int) :
    renderReply format buf first attrsLen =
      replyText format (buf.slice first attrsLen.toNat) attrsLen := by
  unfold renderReply replyText
  split
  · next set _ => exact textOf_renderAttrsRecursive buf first attrsLen (some set) format.overlay 1
  · rfl

/-- The error code of a message. -/
def msgError (m : Bytes) : UInt32 := field32 m 16

/-- What the body of the loop does with a message. -/
def invokeMessage (format : ReplyFormat) (l : InvokeLocals) (m : Bytes) :
    Control InvokeLocals (InvokeLocals × Except Error CStr) :=
  if msgType m = nlmsgDone then .stop l
  else if msgType m = nlmsgError then
    if msgError m = 0 then .next l
    else .done (l, .ok (kernelErrorText format (negatedCode (msgError m)) l.replyCount))
  else replyRendered format l (replyText format (msgAttrs m) (m.length - 20)) m

/-- A message about an error has its code. -/
def HasCode (m : Bytes) : Prop := msgType m = nlmsgError → 20 ≤ m.length

instance (m : Bytes) : Decidable (HasCode m) := inferInstanceAs (Decidable (_ → _))

theorem msgAttrs_recordAt_slice {buf : Mem} {rh : Nat} :
    msgAttrs (nlmsg.recordAt buf rh) =
      buf.slice (rh + 20) (nlmsg.declaredAt buf rh - 20 : Int).toNat := by
  by_cases long : 20 ≤ nlmsg.declaredAt buf rh
  · exact msgAttrs_recordAt long
  · have none : (nlmsg.declaredAt buf rh - 20 : Int).toNat = 0 := by omega
    rw [none, Mem.slice_zero, msgAttrs, Framing.recordAt]
    exact List.drop_eq_nil_of_le (by rw [Mem.length_slice]; omega)

/-- **What is done with a message depends only on its bytes.** -/
theorem invokeBody_eq (format : ReplyFormat) {buf : Mem} {rh : Nat} (l : InvokeLocals)
    (covers : 16 ≤ nlmsg.declaredAt buf rh) (short : nlmsg.declaredAt buf rh ≤ 65536)
    (hasCode : HasCode (nlmsg.recordAt buf rh)) :
    invokeBody format buf l rh = invokeMessage format l (nlmsg.recordAt buf rh) := by
  have length : (nlmsg.recordAt buf rh).length = nlmsg.declaredAt buf rh := Mem.length_slice _ _ _
  unfold invokeBody invokeMessage
  rw [msgType_recordAt covers]
  by_cases done : buf.load16 (rh + 4) = nlmsgDone
  · rw [if_pos done, if_pos done]
  rw [if_neg done, if_neg done]
  by_cases error : buf.load16 (rh + 4) = nlmsgError
  · have long := hasCode (by rw [msgType_recordAt covers, error])
    rw [length] at long
    have code : msgError (nlmsg.recordAt buf rh) = buf.load32 (rh + 16) :=
      field32_slice buf rh _ long
    rw [if_pos error, if_pos error, code]
  · rw [if_neg error, if_neg error, renderReply_eq, toInt_eq (by omega), msgAttrs_recordAt_slice,
      length]

theorem invokeLoop_eq (format : ReplyFormat) (header : Bytes) (recvFailed : Error)
    {queue : List Datagram} (hasCodes : ∀ d ∈ queue, ∀ m ∈ d.messages, HasCode m)
    (fails : Option Nat) (buf : Mem) :
    invokeLoop format header recvFailed queue fails buf =
      receiveMessages (invokeMessage format) (fun l => (l, .error recvFailed)) false queue fails
        ⟨header, 0, []⟩ :=
  receiveLoop_eq HasCode
    (fun _ l _ covers short hasCode => invokeBody_eq format l covers short hasCode) _ _ hasCodes
    fails buf _

/-- The text of a reply tells what was rendered for it. -/
theorem replyRendered_injective {format : ReplyFormat} {l : InvokeLocals} {text text' reply : Bytes}
    (same : replyRendered format l text reply = replyRendered format l text' reply) :
    text = text' := by
  unfold replyRendered at same
  split at same
  · exact List.append_cancel_left (congrArg InvokeLocals.text (Control.next.inj same))
  · exact List.append_cancel_left (congrArg InvokeLocals.text (Control.stop.inj same))

/-! ## The invocations -/

/-- What an invocation answers when its loop has ended. -/
def invokeText (format : ReplyFormat) (one many : CStr) (l : InvokeLocals) : CStr :=
  l.text ++
    if format.dumpMode then
      lit "\n(" ++ decimal l.replyCount ++ lit " " ++ (if l.replyCount = 1 then one else many) ++
        lit ")\n"
    else []

/-- The format of `invoke_generic_genl`. -/
def genericFormat (op : Operation) (family : Family) (args : InvokeArgs)
    (strerror : Int → CStr) : ReplyFormat where
  dumpMode := args.isEmpty
  attrsSet := genericAttrSet op family
  overlay := family.overlay
  subject := family.name ++ lit "/" ++ orNull op.overlayName
  strerror := strerror

/-- The text `invoke_generic_genl` starts with. -/
def genericHeader (op : Operation) (family : Family) (args : InvokeArgs) : Bytes :=
  family.name ++ lit "/" ++ op.overlayName.getD (lit "?") ++ lit " reply (cmd=" ++
    decimal op.cmdId.toNat ++ lit ", family id=" ++ decimal family.id.toNat ++ lit ")" ++
    (if args.isEmpty then lit " [DUMP]" else []) ++ lit ":\n"

/-- The format of `invoke_ethtool_get`. -/
def ethtoolFormat (op : Operation) (family : Family) (schema : EthtoolSchema) (args : InvokeArgs)
    (strerror : Int → CStr) : ReplyFormat where
  dumpMode := ethtoolDumpMode args
  attrsSet := some schema.responseSet
  overlay := family.overlay
  subject := orNull op.overlayName
  strerror := strerror

/-- The text `invoke_ethtool_get` starts with. -/
def ethtoolHeader (op : Operation) (family : Family) (schema : EthtoolSchema) (args : InvokeArgs) :
    Bytes :=
  orNull op.overlayName ++ lit " reply (cmd=" ++ decimal op.cmdId.toNat ++ lit ", family=" ++
    family.name ++ lit " id=" ++ decimal family.id.toNat ++ lit ", set=" ++ schema.setName ++
    lit ")" ++ (if ethtoolDumpMode args then lit " [DUMP]" else []) ++ lit ":\n"

end Ykern.Genl
