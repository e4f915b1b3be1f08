import Ykern.Genl.Exchange
import Ykern.Rtnl.Invoke

/-!
# The three receive loops

The ethtool invocation, the generic invocation and the operations of the route namespace
each have a receive loop of their own, written three times alike (`InvocationLoop.body_eq`).
They differ in their texts and in what they render for a reply.

What a loop does with a message depends only on the bytes of the message if it is as long as
the fixed header its type makes the loop read (`InvocationLoop.Whole`): an error needs its
code, and a reply to a route operation the header of the operation
(`InvocationLoop.body_recordAt`).
-/

set_option autoImplicit false

namespace Ykern.Invocation

open Genl Rtnl Netlink Overlay

/-- A receive loop, with what the invocation has looked up before. -/
inductive InvocationLoop where
  | ethtoolGet (op : Operation) (family : Family) (schema : EthtoolSchema) (args : InvokeArgs)
  | genericGenl (op : Operation) (family : Family) (args : InvokeArgs)
  | rtnl (op : RtnlOp)

namespace InvocationLoop

/-! ## What the loops differ in -/

/-- The texts a loop uses, for the texts of error codes. -/
def format (strerror : Int → CStr) : InvocationLoop → ReplyFormat
  | .ethtoolGet op family schema args => ethtoolFormat op family schema args strerror
  | .genericGenl op family args => genericFormat op family args strerror
  | .rtnl op => rtnlFormat op strerror

/-- The request asked for a dump. -/
def dumpMode (loop : InvocationLoop) : Bool := (loop.format fun _ => []).dumpMode

@[simp] theorem dumpMode_format (loop : InvocationLoop) (strerror : Int → CStr) :
    (loop.format strerror).dumpMode = loop.dumpMode := by
  cases loop <;> rfl

/-- The text in front of the replies. -/
def header : InvocationLoop → Bytes
  | .ethtoolGet op family schema args => ethtoolHeader op family schema args
  | .genericGenl op family args => genericHeader op family args
  | .rtnl op => rtnlHeader op

/-- The words for one reply and for several. -/
def nouns : InvocationLoop → CStr × CStr
  | .ethtoolGet _ _ _ _ => (ethtoolTexts.one, ethtoolTexts.many)
  | .genericGenl _ _ _ => (genericTexts.one, genericTexts.many)
  | .rtnl _ => (lit "object", lit "objects")

/-- The answer when `recv` fails. -/
def recvFailed (env : RtnlEnv) : InvocationLoop → Except Error CStr
  | .ethtoolGet _ _ _ _ => .error [ethtoolTexts.recvFailed]
  | .genericGenl _ _ _ => .error [genericTexts.recvFailed]
  | .rtnl _ => .ok (rtnlFailure "recv" env)

/-- The body of a loop. -/
def body (strerror : Int → CStr) : InvocationLoop → Mem → InvokeLocals → Nat →
    Control InvokeLocals (InvokeLocals × Except Error CStr)
  | .ethtoolGet op family schema args => invokeBody (ethtoolFormat op family schema args strerror)
  | .genericGenl op family args => invokeBody (genericFormat op family args strerror)
  | .rtnl op => rtnlBody op strerror

/-- What a loop renders for the reply at an address. -/
def render (loop : InvocationLoop) (buf : Mem) (rh : Nat) : Bytes :=
  match loop with
  | .ethtoolGet op family schema args =>
      renderReply (ethtoolFormat op family schema args fun _ => []) buf (rh + 20)
        (toInt (nlmsg.declaredAt buf rh) - 20)
  | .genericGenl op family args =>
      renderReply (genericFormat op family args fun _ => []) buf (rh + 20)
        (toInt (nlmsg.declaredAt buf rh) - 20)
  | .rtnl op => renderRtnlReply op buf rh

/-- **The loops do the same**, but for their texts. -/
theorem body_eq (loop : InvocationLoop) (strerror : Int → CStr) (buf : Mem) (l : InvokeLocals)
    (rh : Nat) : loop.body strerror buf l rh =
      if buf.load16 (rh + 4) = nlmsgDone then .stop l
      else if buf.load16 (rh + 4) = nlmsgError then
        if buf.load32 (rh + 16) = 0 then .next l
        else .done (l, .ok (kernelErrorText (loop.format strerror)
          (negatedCode (buf.load32 (rh + 16))) l.replyCount))
      else replyRendered (loop.format strerror) l (loop.render buf rh) (nlmsg.recordAt buf rh) := by
  cases loop <;> rfl

/-! ## What the loops do with a message -/

/-- The fixed headers at the start of a reply that a loop reads. -/
def replyHeader : InvocationLoop → Nat
  | .ethtoolGet _ _ _ _ | .genericGenl _ _ _ => 16
  | .rtnl op => 16 + (rtnlOps op).hdrSkip

/-- A message is as long as the fixed header its type makes the loop read. -/
def Whole (loop : InvocationLoop) (m : Bytes) : Prop :=
  HasCode m ∧ (isReply m = true → loop.replyHeader ≤ m.length)

/-- What a loop renders for a reply. -/
def replyText (loop : InvocationLoop) (m : Bytes) : Bytes :=
  match loop with
  | .ethtoolGet op family schema args =>
      Genl.replyText (ethtoolFormat op family schema args fun _ => []) (msgAttrs m) (m.length - 20)
  | .genericGenl op family args =>
      Genl.replyText (genericFormat op family args fun _ => []) (msgAttrs m) (m.length - 20)
  | .rtnl op =>
      renderMsgHeader (rtnlOps op) (Mem.place (fun _ => 0) m 0) 16 ++
        (nla.frames (m.drop (16 + align4 (rtnlOps op).hdrSkip))).flatMap
          (renderRtnlAttr (rtnlOps op).attrs)

/-- What a loop does with a message. -/
def message (strerror : Int → CStr) (loop : InvocationLoop) (l : InvokeLocals) (m : Bytes) :
    Control InvokeLocals (InvokeLocals × Except Error CStr) :=
  if msgType m = nlmsgDone then .stop l
  else if msgType m = nlmsgError then
    if msgError m = 0 then .next l
    else .done (l, .ok (kernelErrorText (loop.format strerror) (negatedCode (msgError m))
      l.replyCount))
  else replyRendered (loop.format strerror) l (loop.replyText m) m

/-- What is rendered for a reply that has its fixed headers depends on its bytes only. -/
theorem render_recordAt (loop : InvocationLoop) {buf : Mem} {rh : Nat}
    (short : nlmsg.declaredAt buf rh ≤ 65536)
    (headers : loop.replyHeader ≤ nlmsg.declaredAt buf rh) :
    loop.render buf rh = loop.replyText (nlmsg.recordAt buf rh) := by
  have length : (nlmsg.recordAt buf rh).length = nlmsg.declaredAt buf rh := Mem.length_slice _ _ _
  have declared : toInt (nlmsg.declaredAt buf rh) = nlmsg.declaredAt buf rh :=
    toInt_eq (by omega)
  cases loop with
  | ethtoolGet op family schema args =>
      rw [render, replyText, renderReply_eq, declared, msgAttrs_recordAt_slice, length]
  | genericGenl op family args =>
      rw [render, replyText, renderReply_eq, declared, msgAttrs_recordAt_slice, length]
  | rtnl op =>
      have headers : 16 + (rtnlOps op).hdrSkip ≤ nlmsg.declaredAt buf rh := headers
      rw [render, replyText, renderRtnlReply, align4_hdrSkip, declared]
      congr 1
      · apply renderMsgHeader_congr
        have alone := Mem.slice_place (fun _ => 0) (nlmsg.recordAt buf rh) 0
        rw [length] at alone
        have within : buf.slice (rh + 16) (rtnlOps op).hdrSkip = Mem.slice
            (Mem.place (fun _ => 0) (nlmsg.recordAt buf rh) 0) (0 + 16) (rtnlOps op).hdrSkip :=
          Mem.slice_within alone.symm headers
        rwa [Nat.zero_add] at within
      · have attrs := nla.walk_frames buf (rh + 16 + (rtnlOps op).hdrSkip)
          (nlmsg.declaredAt buf rh - 16 - (rtnlOps op).hdrSkip)
        have rest : ((nlmsg.declaredAt buf rh : Int) - 16 - (rtnlOps op).hdrSkip).toNat =
            nlmsg.declaredAt buf rh - (16 + (rtnlOps op).hdrSkip) := by omega
        rw [rest, Nat.add_assoc, ← Mem.drop_slice buf rh headers] at attrs
        rw [Nat.add_assoc, ← List.flatMap_map, attrs]
        rfl

/-- **What a loop does with a whole message depends on its bytes only.** -/
theorem body_recordAt (loop : InvocationLoop) (strerror : Int → CStr) {buf : Mem} {rh : Nat}
    (l : InvokeLocals) (covers : 16 ≤ nlmsg.declaredAt buf rh)
    (short : nlmsg.declaredAt buf rh ≤ 65536) (whole : loop.Whole (nlmsg.recordAt buf rh)) :
    loop.body strerror buf l rh = loop.message strerror l (nlmsg.recordAt buf rh) := by
  have length : (nlmsg.recordAt buf rh).length = nlmsg.declaredAt buf rh := Mem.length_slice _ _ _
  obtain ⟨hasCode, hasHeader⟩ := whole
  rw [body_eq, message, msgType_recordAt covers]
  by_cases done : buf.load16 (rh + 4) = nlmsgDone
  · rw [if_pos done, if_pos done]
  rw [if_neg done, if_neg done]
  by_cases error : buf.load16 (rh + 4) = nlmsgError
  · have long := hasCode (by rw [msgType_recordAt covers, error])
    rw [length] at long
    have code : msgError (nlmsg.recordAt buf rh) = buf.load32 (rh + 16) :=
      field32_slice buf rh _ long
    rw [if_pos error, if_pos error, code]
  · have headers := hasHeader (isReply_iff.mpr (by
      rw [msgType_recordAt covers]
      exact ⟨done, error⟩))
    rw [length] at headers
    rw [if_neg error, if_neg error, render_recordAt loop short headers]

/-- The messages that end a loop. -/
def ends (loop : InvocationLoop) : Bytes → Bool := invokeEnds loop.dumpMode

/-- A loop is left at the messages that end it. -/
theorem leaves (loop : InvocationLoop) (strerror : Int → CStr) (l : InvokeLocals) (m : Bytes)
    (isEnd : loop.ends m = true) (l' : InvokeLocals) : loop.message strerror l m ≠ .next l' := by
  rw [message]
  by_cases done : msgType m = nlmsgDone
  · rw [if_pos done]
    intro never
    cases never
  rw [if_neg done]
  by_cases error : msgType m = nlmsgError
  · have code : msgError m ≠ 0 := by
      simpa [ends, invokeEnds, isReply, error, nlmsgError, nlmsgDone] using isEnd
    rw [if_pos error, if_neg code]
    intro never
    cases never
  · have dump : loop.dumpMode = false := by
      simpa [ends, invokeEnds, isReply_iff.mpr ⟨done, error⟩, done, error] using isEnd
    rw [if_neg error, replyRendered, dumpMode_format, dump, if_neg Bool.false_ne_true]
    intro never
    cases never

/-! ## Receiving -/

/-- Receive with a loop. -/
def receive (loop : InvocationLoop) (env : RtnlEnv) (arrivals : List Arrival) :
    Reception InvokeLocals (InvokeLocals × Except Error CStr) :=
  receiveArrivals (loop.body env.strerror) (fun l => (l, loop.recvFailed env)) arrivals env.recvFails
    ⟨loop.header, 0, []⟩

/-- What an invocation answers when its loop has ended. -/
def finish (loop : InvocationLoop) (l : InvokeLocals) : CStr :=
  invokeText (loop.format fun _ => []) loop.nouns.1 loop.nouns.2 l

/-- What an invocation answers after its request was sent. -/
def answer (loop : InvocationLoop) (env : RtnlEnv) (arrivals : List Arrival) : Answer :=
  match loop.receive env arrivals with
  | .stopped l _ => .text (.ok (loop.finish l))
  | .returned r _ => .text r.2
  | .waiting _ => .waiting

/-- **When the messages that are read are whole, receiving depends on them only.** -/
theorem receive_eq (loop : InvocationLoop) (env : RtnlEnv) {arrivals : List Arrival}
    (whole : ∀ m ∈ (reading loop.ends env.recvFails (arrivals.map Arrival.datagram)).1,
      loop.Whole m) :
    loop.receive env arrivals =
      receiveMessages (loop.message env.strerror) (fun l => (l, loop.recvFailed env)) false
        (arrivals.map Arrival.datagram) env.recvFails ⟨loop.header, 0, []⟩ :=
  receiveArrivals_eq (fun l m _ isEnd => loop.leaves env.strerror l m isEnd)
    (fun _ l _ covers short whole => loop.body_recordAt env.strerror l covers short whole) _ whole _

end InvocationLoop

end Ykern.Invocation
