import Ykern.Genl.Invoke
import Ykern.Genl.RequestEncoding

/-!
# Families with a header of their own

A family may have a header between the generic netlink header and the attributes, whose
size the kernel tells with the family. The program keeps the size and shows it, but
neither leaves room for the header in requests (`HonoursInRequests`) nor skips it in
replies (`HonoursInReplies`). So it treats a family right exactly when the family has no
header (`honoursHeader_iff`).
-/

set_option autoImplicit false

namespace Ykern.Genl

open Overlay Netlink

/-- The size of the header of a family, with its padding. -/
def familyHeaderSize (family : Family) : Nat := align4 family.hdrsize.toNat

/-- What is rendered for every reply of the family is the stream of attributes behind its
header, whatever else the headers of the message say. -/
def HonoursInReplies (family : Family) : Prop :=
  ∀ (op : Operation) (args : InvokeArgs) (strerror : Int → CStr) (reply header stream : Bytes)
    (attrs : List Bytes) (buf : Mem) (rh : Nat) (l : InvokeLocals),
    nlmsg.IsFrame reply → 20 ≤ reply.length → reply.length ≤ 65536 →
    msgType reply ≠ nlmsgDone → msgType reply ≠ nlmsgError →
    msgAttrs reply = header ++ stream → header.length = familyHeaderSize family →
    Framing.Packs nla attrs stream →
    invokeBody (genericFormat op family args strerror) (buf.place reply rh) l rh =
      replyRendered (genericFormat op family args strerror) l
        (replyText (genericFormat op family args strerror) stream stream.length) reply

/-- The attributes of a request. -/
def requestAttrs (op : Operation) (family : Family) (args : InvokeArgs) : List Bytes :=
  match genericAttrSet op family with
  | none => []
  | some attrsSet => args.map (argAttr attrsSet)

/-- The attributes of every request to the family start behind its header. -/
def HonoursInRequests (family : Family) : Prop :=
  ∀ (op : Operation) (args : InvokeArgs) (seq : UInt32) (m : Bytes),
    genericRequest op family args seq = .send m →
      ∃ header : Bytes, header.length = familyHeaderSize family ∧
        msgAttrs m = header ++ Framing.encode (requestAttrs op family args)

/-! ## Requests -/

/-- The request for a dump has no attributes, and nothing behind its headers. -/
theorem genericRequest_dump (op : Operation) (family : Family) (seq : UInt32) :
    ∃ m, genericRequest op family [] seq = .send m ∧ msgAttrs m = [] :=
  ⟨_, rfl, rfl⟩

theorem msgAttrs_genericRequest {op : Operation} {family : Family} {args : InvokeArgs} {seq : UInt32}
    {m : Bytes} (sent : genericRequest op family args seq = .send m) :
    msgAttrs m = Framing.encode (requestAttrs op family args) := by
  cases args with
  | nil =>
      obtain ⟨m', sent', none⟩ := genericRequest_dump op family seq
      obtain rfl := Attempt.send.inj (sent.symm.trans sent')
      rw [none, requestAttrs]
      split
      · rfl
      · rfl
  | cons arg args =>
      cases found : genericAttrSet op family with
      | none =>
          rw [genericRequest, if_neg (by simp), found] at sent
          cases sent
      | some attrsSet =>
          rcases genericRequest_sends op family seq (List.cons_ne_nil arg args) found with
            ⟨_, never⟩ | ⟨_, cmd, version, sent'⟩
          · exact absurd sent (never m)
          · obtain rfl := Attempt.send.inj (sent.symm.trans sent')
            rw [msgAttrs_msg, requestAttrs, found]

theorem honoursInRequests_iff (family : Family) :
    HonoursInRequests family ↔ familyHeaderSize family = 0 := by
  constructor
  · intro honours
    obtain ⟨m, sent, none⟩ := genericRequest_dump ⟨0, 0, none, none, none⟩ family 0
    obtain ⟨header, length, behind⟩ := honours _ _ _ m sent
    rw [none] at behind
    rw [← length, (List.append_eq_nil_iff.mp behind.symm).1, List.length_nil]
  · intro noHeader op args seq m sent
    exact ⟨[], noHeader.symm, by rw [msgAttrs_genericRequest sent, List.nil_append]⟩

/-! ## Replies -/

/-- The program renders a reply from the end of the generic netlink header on. -/
theorem invokeBody_reply (format : ReplyFormat) {reply : Bytes} (buf : Mem) (rh : Nat)
    (l : InvokeLocals) (isFrame : nlmsg.IsFrame reply) (long : 20 ≤ reply.length)
    (short : reply.length ≤ 65536) (notDone : msgType reply ≠ nlmsgDone)
    (notError : msgType reply ≠ nlmsgError) :
    invokeBody format (buf.place reply rh) l rh =
      replyRendered format l (replyText format (msgAttrs reply) (msgAttrs reply).length) reply := by
  have declared := Framing.declaredAt_place nlmsg buf isFrame rh
  have record := Framing.recordAt_place nlmsg buf isFrame rh
  have length : ((msgAttrs reply).length : Int) = reply.length - 20 := by
    rw [msgAttrs, List.length_drop]
    omega
  rw [invokeBody_eq format l (by rw [declared]; omega) (by rw [declared]; exact short)
    (by rw [record]; exact fun error => absurd error notError), record, invokeMessage,
    if_neg notDone, if_neg notError, length]

/-- A reply with a header of the family in front of its attributes. -/
def replyWithHeader (type flags : UInt16) (seq port : UInt32) (cmd version : UInt8)
    (header stream : Bytes) : Bytes :=
  msgAt type flags seq port (genlHeader cmd version ++ (header ++ stream))

/-- A header that looks like an attribute. -/
def attrHeader (size : Nat) : Bytes := attr 0 [] ++ List.replicate (size - 4) 0

theorem length_attrHeader {size : Nat} (room : 4 ≤ size) : (attrHeader size).length = size := by
  rw [attrHeader, List.length_append, length_attr, List.length_replicate, List.length_nil]
  omega

/-- It is rendered, when nothing should be. -/
theorem replyText_attrHeader (format : ReplyFormat) {size : Nat} (room : 4 ≤ size) :
    replyText format (attrHeader size) (size : Nat) ≠ replyText format [] (0 : Nat) := by
  unfold replyText
  cases format.attrsSet with
  | none =>
      intro same
      have number : decimalInt (size : Nat) = decimalInt (0 : Nat) := by
        simpa using same
      have positive : ¬((size : Nat) : Int) < 0 := by omega
      rw [decimalInt, decimalInt, if_neg positive, if_neg (by decide)] at number
      have := decimal_injective number
      omega
  | some set =>
      have first : nla.frames (attrHeader size) =
          attr 0 [] :: nla.frames (List.replicate (size - 4) 0) := by
        have pad : ([] : Bytes).length = padding (attr 0 []).length := rfl
        have read := Framing.frames_append (attr_isFrame 0 (by decide)) pad
          (List.replicate (size - 4) 0)
        rwa [List.append_nil] at read
      show streamText (some set) format.overlay 1 (attrHeader size) ≠
        streamText (some set) format.overlay 1 []
      rw [streamText_eq, streamText_eq, first, Framing.frames_nil, List.flatMap_cons, List.flatMap_nil]
      intro none
      exact namedText_ne_nil _ _ _ _ _ _ _ (List.append_eq_nil_iff.mp none).1

theorem honoursInReplies_iff {family : Family} (short : 20 + familyHeaderSize family ≤ 65536) :
    HonoursInReplies family ↔ familyHeaderSize family = 0 := by
  constructor
  · intro honours
    by_contra header
    have aligned := align4_mod family.hdrsize.toNat
    have four : 4 ≤ familyHeaderSize family := by
      unfold familyHeaderSize at header ⊢
      omega
    have length := length_attrHeader four
    -- A reply whose header of the family looks like an attribute.
    obtain ⟨reply, isFrame, size, type, behind⟩ : ∃ reply, nlmsg.IsFrame reply ∧
        reply.length = 20 + familyHeaderSize family ∧ msgType reply = 16 ∧
          msgAttrs reply = attrHeader (familyHeaderSize family) ++ [] := by
      refine ⟨replyWithHeader 16 0 0 0 0 0 (attrHeader (familyHeaderSize family)) [],
        msg_isFrame ?_, ?_, msgType_msg _, msgAttrs_msg _ _ _⟩
      · simp only [genlHeader, List.length_append, List.length_cons, List.length_nil, length]
        omega
      · simp only [replyWithHeader, genlHeader, length_msg, List.length_append, List.length_cons,
          List.length_nil, length]
        omega
    have notDone : msgType reply ≠ nlmsgDone := by
      rw [type]
      decide
    have notError : msgType reply ≠ nlmsgError := by
      rw [type]
      decide
    have rendered := honours ⟨0, 0, none, none, none⟩ [] (fun _ => []) reply _ _ [] (fun _ => 0) 0
      ⟨[], 0, []⟩ isFrame (by omega) (by omega) notDone notError behind length .nil
    rw [invokeBody_reply _ _ _ _ isFrame (by omega) (by omega) notDone notError] at rendered
    have texts := replyRendered_injective rendered
    rw [behind, List.append_nil, length] at texts
    exact replyText_attrHeader _ four texts
  · intro noHeader op args strerror reply header stream attrs buf rh l isFrame long size notDone
      notError behind length _
    obtain rfl := List.length_eq_zero_iff.mp (length.trans noHeader)
    rw [invokeBody_reply _ _ _ _ isFrame long size notDone notError, behind, List.nil_append]

/-- **Requests and replies of a family are treated right exactly when the family has no
header.** Both are wrong otherwise, as far as a reply with the header can be received. -/
theorem honoursHeader_iff (family : Family) :
    (HonoursInRequests family ∧ HonoursInReplies family ↔ family.hdrsize = 0) ∧
      (HonoursInRequests family ↔ family.hdrsize = 0) ∧
      (20 + familyHeaderSize family ≤ 65536 →
        (HonoursInReplies family ↔ family.hdrsize = 0)) := by
  have noHeader : familyHeaderSize family = 0 ↔ family.hdrsize = 0 := by
    have long := le_align4 family.hdrsize.toNat
    constructor
    · intro none
      rw [familyHeaderSize] at none
      apply UInt32.toNat_inj.mp
      show family.hdrsize.toNat = 0
      omega
    · intro none
      rw [familyHeaderSize, none]
      rfl
  have requests : HonoursInRequests family ↔ family.hdrsize = 0 :=
    (honoursInRequests_iff family).trans noHeader
  refine ⟨⟨fun both => requests.mp both.1, fun none => ⟨requests.mpr none, ?_⟩⟩, requests, fun short =>
    (honoursInReplies_iff short).trans noHeader⟩
  exact (honoursInReplies_iff (by rw [noHeader.mpr none]; decide)).mpr (noHeader.mpr none)

/-- A family with a header of four bytes, as that of `ovs_datapath`. -/
def ovsFamily : Family :=
  ⟨lit "ovs_datapath", 32, 2, 4, 10, [⟨3, 14⟩], [], some { FamilyOverlay.zero with
    attrSets := ⟨[⟨lit "ATTRS", ⟨[⟨1, some (lit "NAME"), some (lit "string")⟩], 16⟩⟩], 16⟩ }⟩

/-- The operation that asks for its datapaths. -/
def ovsOperation : Operation := ⟨3, 14, some (lit "GET"), none, none⟩

/-- The attributes of a reply. -/
def ovsStream : Bytes := Framing.encode [attr 1 (lit "br0" ++ [0])]

/-- A reply to the port 4711, with the index of an interface in its header. -/
def ovsReply : Bytes := replyWithHeader 32 2 1 4711 3 2 (bytes32 0) ovsStream

/-- Nothing is rendered for the reply, which has a name; and the request has no room for
the header. -/
theorem ovs_header_ignored :
    renderReply (genericFormat ovsOperation ovsFamily [] fun _ => [])
          (Mem.place (fun _ => 0) ovsReply 0) 20 (toInt ovsReply.length - 20) = [] ∧
      replyText (genericFormat ovsOperation ovsFamily [] fun _ => []) ovsStream ovsStream.length =
        lit "  NAME = \"br0\"  (string, 4 bytes)\n" ∧
      (∃ m, genericRequest ovsOperation ovsFamily [] 1 = .send m ∧ m.length = 20) ∧
      ¬HonoursInReplies ovsFamily ∧ ¬HonoursInRequests ovsFamily := by
  refine ⟨by decide +kernel, by decide +kernel, ⟨_, rfl, by decide +kernel⟩, ?_, ?_⟩
  · exact fun honours => absurd ((honoursInReplies_iff (by decide)).mp honours) (by decide)
  · exact fun honours => absurd ((honoursInRequests_iff ovsFamily).mp honours) (by decide)

end Ykern.Genl
