import Ykern.Genl.Transport

/-!
# What an ethtool request says

An ethtool request is one nest with at most one attribute in it, the name or the index of
the interface (`ethtoolSelector`). The length of a nest is written over the zero it was
begun with, so ending a nest around what was written makes it an attribute
(`abEndNested_holds`).

What an invocation makes of its arguments up to the send is told by one equation
(`ethtoolRequest_eq`). What is sent is read back: the nest is the rest of the message, and
its contents are walked to their end (`ethtoolGet_reads`).
-/

set_option autoImplicit false

namespace Ykern.Genl

open Overlay Netlink

/-! ## Nests -/

/-- Writing over bytes in the middle. -/
theorem AttrBuf.Holds.overwrite {b : AttrBuf} {before old behind bs : Bytes}
    (holds : b.Holds (before ++ (old ++ behind))) (length : bs.length = old.length) :
    AttrBuf.Holds { b with data := b.data.place bs before.length } (before ++ (bs ++ behind)) := by
  obtain ⟨off, slice, zero⟩ := holds
  have off : b.off = before.length + (bs.length + behind.length) := by
    rw [off, List.length_append, List.length_append, length]
  rw [off, Mem.slice_add, Mem.slice_add, Nat.zero_add] at slice
  obtain ⟨first, rest⟩ := List.append_inj slice (Mem.length_slice _ _ _)
  obtain ⟨-, last⟩ := List.append_inj rest ((Mem.length_slice _ _ _).trans length)
  have first' : (b.data.place bs before.length).slice 0 before.length = before := by
    refine Eq.trans (Mem.slice_congr ?_) first
    intro a _ within
    exact Mem.place_outside b.data (.inl (by omega))
  have last' : (b.data.place bs before.length).slice (before.length + bs.length) behind.length =
      behind := by
    refine Eq.trans (Mem.slice_congr ?_) last
    intro a later _
    exact Mem.place_outside b.data (.inr later)
  refine ⟨?_, ?_, ?_⟩
  · rw [off, List.length_append, List.length_append]
  · show (b.data.place bs before.length).slice 0 b.off = _
    rw [off, Mem.slice_add, Mem.slice_add, Nat.zero_add, first', Mem.slice_place, last']
  · intro a later
    have later : b.off ≤ a := later
    show b.data.place bs before.length a = 0
    rw [Mem.place_outside b.data (.inr (by omega))]
    exact zero a later

/-- A nest that was begun and ended around what was written is an attribute. -/
theorem abEndNested_holds {b b' : AttrBuf} {written : Bytes} (holds : b.Holds written)
    {type : UInt16} {off : Nat} (begun : abBeginNested b type = some (off, b')) :
    b'.off = b.off + 4 ∧ b'.cap = b.cap ∧
      b'.Holds (written ++ (bytes16 0 ++ bytes16 (type ||| nlaFNested))) ∧
      ∀ (b'' : AttrBuf) (inner : Bytes),
        b''.Holds (written ++ (bytes16 0 ++ bytes16 (type ||| nlaFNested)) ++ inner) →
          (abEndNested b'' off).Holds (written ++ attr (type ||| nlaFNested) inner) := by
  simp only [abBeginNested] at begun
  split at begun
  · obtain ⟨rfl, rfl⟩ := Prod.mk.inj (Option.some.inj begun)
    refine ⟨rfl, rfl, holds.extend (bytes16 0 ++ bytes16 (type ||| nlaFNested)), ?_⟩
    intro b'' inner holds''
    have off : b.off = written.length := holds.off
    have size : b''.off - b.off = 4 + inner.length := by
      rw [holds''.off, off]
      simp only [List.length_append, length_bytes16]
      omega
    rw [List.append_assoc, List.append_assoc] at holds''
    have ended := holds''.overwrite
      (show (bytes16 (UInt16.ofNat (4 + inner.length))).length = (bytes16 0).length from rfl)
    rw [abEndNested, size, off, attr, List.append_assoc]
    exact ended
  · cases begun

/-! ## The request -/

/-- What an ethtool request tells of the interface: the identifier of an attribute and its
payload. The name goes before the index, and without both the request tells nothing. -/
def ethtoolSelector (schema : EthtoolSchema) (args : InvokeArgs) : Option (UInt32 × Bytes) :=
  match argsLookup args (lit "ifname"), argsLookup args (lit "ifindex") with
  | some ifname, _ => some (schema.devNameId, ifname ++ [0])
  | none, some ifindex =>
      some (schema.devIndexId, bytes32 (UInt32.ofNat (strtoul ifindex).value))
  | none, none => none

/-- The attributes in the nest of an ethtool request. -/
def ethtoolInner (schema : EthtoolSchema) (args : InvokeArgs) : List Bytes :=
  (ethtoolSelector schema args).toList.map fun field => attr field.1.toUInt16 field.2

/-- The message of an ethtool request. -/
def ethtoolMsg (family : Family) (schema : EthtoolSchema) (args : InvokeArgs) (seq : UInt32)
    (cmd version : UInt8) : Bytes :=
  msg family.id (requestFlags (ethtoolDumpMode args)) seq
    (genlHeader cmd version ++
      attr (schema.hdrAttrId.toUInt16 ||| nlaFNested) (Framing.encode (ethtoolInner schema args)))

/-- **The name of the interface is sent if it fits, the index if it is one, and without
both the nest is empty.** -/
theorem ethtoolRequest_eq (op : Operation) (family : Family) (schema : EthtoolSchema)
    (args : InvokeArgs) (seq : UInt32) : ∃ cmd version,
    ethtoolRequest op family schema args seq =
      match argsLookup args (lit "ifname"), argsLookup args (lit "ifindex") with
      | some ifname, _ =>
          if 256 < 24 + align4 (4 + (ifname ++ [0]).length) then
            .error ["ethtool *_GET: buffer overflow on DEV_NAME"]
          else .send (ethtoolMsg family schema args seq cmd version)
      | none, some ifindex =>
          if (strtoul ifindex).rest ≠ [] ∨ 2 ^ 32 - 1 < (strtoul ifindex).value then
            .text (orNull op.overlayName ++ lit ": ifindex must be a u32")
          else .send (ethtoolMsg family schema args seq cmd version)
      | none, none => .send (ethtoolMsg family schema args seq cmd version) := by
  obtain ⟨cmd, version, holds⟩ := requestBuf_holds op family (ethtoolDumpMode args) seq 256
  refine ⟨cmd, version, ?_⟩
  obtain ⟨hdrOff, b, begun⟩ : ∃ hdrOff b, abBeginNested
      (requestBuf op family (ethtoolDumpMode args) seq 256) schema.hdrAttrId.toUInt16 =
        some (hdrOff, b) := ⟨_, _, rfl⟩
  obtain ⟨off, cap, holds', ended⟩ := abEndNested_holds holds begun
  have off : b.off = 24 := off
  have cap : b.cap = 256 := cap
  -- What is sent when the buffer holds the contents of the nest.
  have sent {b' : AttrBuf} (holds'' : b'.Holds ([0, 0, 0, 0] ++ bytes16 family.id ++
      bytes16 (requestFlags (ethtoolDumpMode args)) ++ bytes32 seq ++ bytes32 0 ++
      genlHeader cmd version ++ (bytes16 0 ++ bytes16 (schema.hdrAttrId.toUInt16 ||| nlaFNested)) ++
      Framing.encode (ethtoolInner schema args))) :
      (abEndNested b' hdrOff).message = ethtoolMsg family schema args seq cmd version :=
    message_of_holds (ended b' _ holds'')
  have room {type : UInt16} {value : Bytes} :
      abAttr b type value = none ↔ 256 < 24 + align4 (4 + value.length) := by
    rw [abAttr_eq_none, off, cap]
  unfold ethtoolRequest
  simp only [begun]
  unfold ethtoolInner ethtoolSelector at sent
  cases name : argsLookup args (lit "ifname") with
  | some ifname =>
      simp only [name, Option.toList_some, List.map_singleton, Framing.encode_cons,
        Framing.encode_nil, List.append_nil] at sent ⊢
      cases appended : abString b schema.devNameId.toUInt16 ifname with
      | none =>
          have tooLong := room.mp appended
          rw [if_pos tooLong]
      | some b' =>
          have fits : ¬256 < 24 + align4 (4 + (ifname ++ [0]).length) := by
            intro tooLong
            cases appended.symm.trans (room.mpr tooLong)
          dsimp only
          rw [if_neg fits, sent (abAttr_holds holds' appended).2]
  | none =>
      cases index : argsLookup args (lit "ifindex") with
      | some ifindex =>
          simp only [name, index, Option.toList_some, List.map_singleton, Framing.encode_cons,
            Framing.encode_nil, List.append_nil] at sent ⊢
          by_cases malformed :
              (strtoul ifindex).rest ≠ [] ∨ 2 ^ 32 - 1 < (strtoul ifindex).value
          · rw [if_pos malformed, if_pos malformed]
          · rw [if_neg malformed, if_neg malformed]
            cases appended : abU32 b schema.devIndexId.toUInt16
                (UInt32.ofNat (strtoul ifindex).value) with
            | none =>
                have tooLong := room.mp appended
                rw [length_bytes32] at tooLong
                exact absurd tooLong (by decide)
            | some b' =>
                dsimp only
                rw [sent (abAttr_holds holds' appended).2]
      | none =>
          simp only [name, index, Option.toList_none, List.map_nil, Framing.encode_nil,
            List.append_nil] at sent ⊢
          rw [sent holds']

/-- The arguments are refused: the name does not fit, or without a name the index is
malformed. -/
def EthtoolRefused (args : InvokeArgs) : Prop :=
  (∃ ifname, argsLookup args (lit "ifname") = some ifname ∧
      256 < 24 + align4 (4 + (ifname ++ [0]).length)) ∨
    argsLookup args (lit "ifname") = none ∧ ∃ ifindex,
      argsLookup args (lit "ifindex") = some ifindex ∧
        ((strtoul ifindex).rest ≠ [] ∨ 2 ^ 32 - 1 < (strtoul ifindex).value)

/-- **The ethtool request is sent unless the arguments are refused.** -/
theorem ethtoolRequest_sends (op : Operation) (family : Family) (schema : EthtoolSchema)
    (args : InvokeArgs) (seq : UInt32) :
    (EthtoolRefused args ∧ ∀ m, ethtoolRequest op family schema args seq ≠ .send m) ∨
      (¬EthtoolRefused args ∧ ∃ cmd version,
        ethtoolRequest op family schema args seq =
          .send (ethtoolMsg family schema args seq cmd version)) := by
  obtain ⟨cmd, version, request⟩ := ethtoolRequest_eq op family schema args seq
  rw [request, EthtoolRefused]
  cases argsLookup args (lit "ifname") with
  | some ifname =>
      simp only [Option.some.injEq, exists_eq_left', reduceCtorEq, false_and, or_false]
      split
      · next tooLong => exact .inl ⟨tooLong, by simp⟩
      · next fits => exact .inr ⟨fits, cmd, version, rfl⟩
  | none =>
      cases argsLookup args (lit "ifindex") with
      | some ifindex =>
          simp only [reduceCtorEq, false_and, exists_false, false_or, true_and,
            Option.some.injEq, exists_eq_left']
          split
          · next malformed => exact .inl ⟨malformed, by simp⟩
          · next number => exact .inr ⟨number, cmd, version, rfl⟩
      | none => exact .inr ⟨by simp, cmd, version, rfl⟩

/-- The contents of the nest of a request that is sent are short. -/
theorem length_encode_ethtoolInner (schema : EthtoolSchema) {args : InvokeArgs}
    (accepted : ¬EthtoolRefused args) :
    (Framing.encode (ethtoolInner schema args)).length ≤ 232 := by
  unfold ethtoolInner ethtoolSelector
  unfold EthtoolRefused at accepted
  cases name : argsLookup args (lit "ifname") with
  | some ifname =>
      have fits : ¬256 < 24 + align4 (4 + (ifname ++ [0]).length) := by
        intro tooLong
        exact accepted (.inl ⟨ifname, name, tooLong⟩)
      simp only [Option.toList_some, List.map_singleton, Framing.encode_cons, Framing.encode_nil,
        List.append_nil, Framing.length_padded, length_attr]
      omega
  | none =>
      cases argsLookup args (lit "ifindex") with
      | some ifindex =>
          simp only [Option.toList_some, List.map_singleton, Framing.encode_cons,
            Framing.encode_nil, List.append_nil, Framing.length_padded, length_attr,
            length_bytes32]
          decide
      | none => simp

/-- The attributes in the nest of a request that is sent are whole. -/
theorem ethtoolInner_isFrame {schema : EthtoolSchema} {args : InvokeArgs}
    (accepted : ¬EthtoolRefused args) : ∀ f ∈ ethtoolInner schema args, nla.IsFrame f := by
  intro f member
  have short := length_encode_ethtoolInner schema accepted
  obtain ⟨field, selected, rfl⟩ := List.mem_map.mp member
  have inner : ethtoolInner schema args = [attr field.1.toUInt16 field.2] := by
    rw [ethtoolInner, Option.mem_toList.mp selected]
    rfl
  rw [inner, Framing.encode_cons, Framing.encode_nil, List.append_nil, Framing.length_padded,
    length_attr] at short
  have long := le_align4 (4 + field.2.length)
  exact attr_isFrame _ (by omega)

/-- The nest of a request that is sent is whole. -/
theorem ethtoolNest_isFrame (schema : EthtoolSchema) {args : InvokeArgs}
    (accepted : ¬EthtoolRefused args) (type : UInt16) :
    nla.IsFrame (attr type (Framing.encode (ethtoolInner schema args))) := by
  have short := length_encode_ethtoolInner schema accepted
  exact attr_isFrame _ (by omega)

/-- The attributes of an ethtool request are its nest. -/
theorem frames_ethtoolRequest {op : Operation} {family : Family} {schema : EthtoolSchema}
    {args : InvokeArgs} {seq : UInt32} {m : Bytes}
    (sent : ethtoolRequest op family schema args seq = .send m) :
    nla.frames (msgAttrs m) = [attr (schema.hdrAttrId.toUInt16 ||| nlaFNested)
      (Framing.encode (ethtoolInner schema args))] := by
  rcases ethtoolRequest_sends op family schema args seq with ⟨-, never⟩ | ⟨accepted, _, _, sent'⟩
  · exact absurd sent (never m)
  · obtain rfl := Attempt.send.inj (sent'.symm.trans sent)
    rw [ethtoolMsg, msgAttrs_msg]
    have alone := Framing.frames_last
      (ethtoolNest_isFrame schema accepted (schema.hdrAttrId.toUInt16 ||| nlaFNested))
      (show ([] : Bytes).length ≤ _ from Nat.zero_le _)
    rwa [List.append_nil] at alone

/-! ## Reading it back -/

/-- The attributes in a nest, each as its identifier and its payload. -/
def nestContents (nest : Bytes) : List (Nat × Bytes) :=
  (nla.frames (payload nest)).map fun f => ((rawType f).toNat, payload f)

/-- A message reads as the ethtool request for these arguments: behind its headers it is
one nest to its end, which holds what the arguments select, and it asks for a dump if they
select nothing. -/
structure EthtoolReads (schema : EthtoolSchema) (args : InvokeArgs) (m : Bytes) : Prop where
  declared : nlmsg.declared m = m.length
  fits : m.length ≤ 256
  alone : nla.frames (m.drop 20) = [m.drop 20]
  nest : (attrType (m.drop 20)).toNat = schema.hdrAttrId.toNat
  flag : rawType (m.drop 20) = schema.hdrAttrId.toUInt16 ||| nlaFNested
  whole : payload (m.drop 20) = Framing.encode (nla.frames (payload (m.drop 20)))
  name : ∀ ifname, argsLookup args (lit "ifname") = some ifname →
    nestContents (m.drop 20) = [(schema.devNameId.toNat, ifname ++ [0])]
  index : argsLookup args (lit "ifname") = none →
    ∀ ifindex, argsLookup args (lit "ifindex") = some ifindex →
      (strtoul ifindex).rest = [] ∧ (strtoul ifindex).value < 2 ^ 32 ∧
        nestContents (m.drop 20) =
          [(schema.devIndexId.toNat, bytes32 (UInt32.ofNat (strtoul ifindex).value))]
  nothing : argsLookup args (lit "ifname") = none → argsLookup args (lit "ifindex") = none →
    nestContents (m.drop 20) = []
  dump : msgFlags m &&& nlmFDump ≠ 0 ↔
    argsLookup args (lit "ifname") = none ∧ argsLookup args (lit "ifindex") = none

/-- An identifier below 2^14 is the type it is cast to. -/
theorem toNat_toUInt16_of_small {id : UInt32} (small : id.toNat < 2 ^ 14) :
    id.toUInt16.toNat = id.toNat := by
  rw [UInt32.toNat_toUInt16, Nat.mod_eq_of_lt (by omega)]

/-- What the nest holds is what the arguments select. -/
theorem nestContents_ethtoolInner (schema : EthtoolSchema) {args : InvokeArgs}
    (accepted : ¬EthtoolRefused args) (type : UInt16) (name : schema.devNameId.toNat < 2 ^ 14)
    (index : schema.devIndexId.toNat < 2 ^ 14) :
    nestContents (attr type (Framing.encode (ethtoolInner schema args))) =
      (ethtoolSelector schema args).toList.map fun field => (field.1.toNat, field.2) := by
  have small : ∀ field ∈ (ethtoolSelector schema args).toList, field.1.toNat < 2 ^ 14 := by
    intro field selected
    rw [Option.mem_toList, ethtoolSelector] at selected
    split at selected
    · obtain rfl := Option.mem_some.mp selected
      exact name
    · obtain rfl := Option.mem_some.mp selected
      exact index
    · cases selected
  rw [nestContents, payload_attr, Framing.frames_encode (ethtoolInner_isFrame accepted),
    ethtoolInner, List.map_map]
  apply List.map_congr_left
  intro field selected
  show ((rawType (attr field.1.toUInt16 field.2)).toNat, _) = _
  rw [rawType_attr, toNat_toUInt16_of_small (small field selected), payload_attr]

/-- The message of arguments that are accepted reads as their request. -/
theorem ethtoolMsg_reads (family : Family) {schema : EthtoolSchema} {args : InvokeArgs}
    (seq : UInt32) (cmd version : UInt8) (accepted : ¬EthtoolRefused args)
    (header : schema.hdrAttrId.toNat < 2 ^ 14) (name : schema.devNameId.toNat < 2 ^ 14)
    (index : schema.devIndexId.toNat < 2 ^ 14) :
    EthtoolReads schema args (ethtoolMsg family schema args seq cmd version) := by
  have short := length_encode_ethtoolInner schema accepted
  have contents := nestContents_ethtoolInner schema accepted
    (schema.hdrAttrId.toUInt16 ||| nlaFNested) name index
  have whole := ethtoolNest_isFrame schema accepted
    (schema.hdrAttrId.toUInt16 ||| nlaFNested)
  have length : (ethtoolMsg family schema args seq cmd version).length =
      24 + (Framing.encode (ethtoolInner schema args)).length := by
    rw [ethtoolMsg, length_msg, List.length_append, length_attr]
    simp only [genlHeader, List.length_cons, List.length_nil]
    omega
  have nest : (ethtoolMsg family schema args seq cmd version).drop 20 =
      attr (schema.hdrAttrId.toUInt16 ||| nlaFNested)
        (Framing.encode (ethtoolInner schema args)) := rfl
  have isFrame : nlmsg.IsFrame (ethtoolMsg family schema args seq cmd version) := by
    rw [ethtoolMsg, length_msg] at length
    exact msg_isFrame (by omega)
  refine ⟨isFrame.2, by omega, ?_, ?_, ?_, ?_, ?_, ?_, ?_, ?_⟩
  · have alone := Framing.frames_last whole (show ([] : Bytes).length ≤ _ from Nat.zero_le _)
    rw [List.append_nil] at alone
    rw [nest, alone]
  · rw [nest, attrType_attr, or_nlaFNested_and_nlaTypeMask, toNat_and_nlaTypeMask,
      toNat_toUInt16_of_small header, Nat.mod_eq_of_lt header]
  · rw [nest, rawType_attr]
  · rw [nest, payload_attr, Framing.frames_encode (ethtoolInner_isFrame accepted)]
  · intro ifname given
    rw [nest, contents, ethtoolSelector, given]
    rfl
  · intro unnamed ifindex given
    have number : ¬((strtoul ifindex).rest ≠ [] ∨ 2 ^ 32 - 1 < (strtoul ifindex).value) := by
      intro malformed
      exact accepted (.inr ⟨unnamed, ifindex, given, malformed⟩)
    refine ⟨by_contra fun more => number (.inl more), ?_, ?_⟩
    · have := not_or.mp number
      omega
    · rw [nest, contents, ethtoolSelector, unnamed, given]
      rfl
  · intro unnamed unindexed
    rw [nest, contents, ethtoolSelector, unnamed, unindexed]
    rfl
  · rw [ethtoolMsg, msgFlags_msg, requestFlags, ethtoolDumpMode, ← Option.isNone_iff_eq_none,
      ← Option.isNone_iff_eq_none]
    cases (argsLookup args (lit "ifname")).isNone <;>
      cases (argsLookup args (lit "ifindex")).isNone <;> decide

/-- **Whatever an ethtool read sends is one nest**, which holds the name of the interface if
one is given, otherwise its index, and nothing in a dump. A name that does not fit is an
error, and nothing is sent. -/
theorem ethtoolGet_reads (op : Operation) (family : Family) (args : InvokeArgs)
    {schema : EthtoolSchema} (route : isEthtoolGet op family = true)
    (found : ethtoolSchema op family = .ok schema) (header : schema.hdrAttrId.toNat < 2 ^ 14)
    (name : schema.devNameId.toNat < 2 ^ 14) (index : schema.devIndexId.toNat < 2 ^ 14) :
    (∀ seq m, (Request.invoke op family args).message seq = some m →
        EthtoolReads schema args m) ∧
      ∀ ifname, argsLookup args (lit "ifname") = some ifname →
        256 < 24 + align4 (4 + (ifname ++ [0]).length) →
          (∀ seq, (Request.invoke op family args).message seq = none) ∧
            ∀ t env, opInvoke op family args t env =
              ⟨.text (.error ["ethtool *_GET: buffer overflow on DEV_NAME"]), [],
                (nextSeq t).2⟩ := by
  refine ⟨?_, ?_⟩
  · intro seq m message
    rw [Request.message, if_pos route, found] at message
    have sent := Attempt.message_eq_some.mp message
    rcases ethtoolRequest_sends op family schema args seq with
      ⟨-, never⟩ | ⟨accepted, cmd, version, sent'⟩
    · exact absurd sent (never m)
    · obtain rfl := Attempt.send.inj (sent'.symm.trans sent)
      exact ethtoolMsg_reads family seq cmd version accepted header name index
  · intro ifname given tooLong
    have refused (seq : UInt32) : ethtoolRequest op family schema args seq =
        .error ["ethtool *_GET: buffer overflow on DEV_NAME"] := by
      obtain ⟨cmd, version, request⟩ := ethtoolRequest_eq op family schema args seq
      rw [request, given]
      exact if_pos tooLong
    refine ⟨?_, ?_⟩
    · intro seq
      rw [Request.message, if_pos route, found]
      dsimp only
      rw [refused, Attempt.message]
    · intro t env
      rw [opInvoke, if_pos route, invokeEthtoolGet, found]
      dsimp only
      rw [refused, exchange]

/-- The ethtool family with the sets of one operation. -/
def ethtoolFamily : Family :=
  ⟨lit "ethtool", 21, 1, 0, 0, [⟨2, 0x0e⟩], [], some { FamilyOverlay.zero with
    attrSets := ⟨[⟨lit "HEADER", ⟨[⟨1, some (lit "DEV_INDEX"), none⟩,
        ⟨2, some (lit "DEV_NAME"), none⟩], 16⟩⟩,
      ⟨lit "LINKINFO", ⟨[⟨1, some (lit "HEADER"), none⟩, ⟨2, some (lit "PORT"), none⟩], 16⟩⟩], 16⟩ }⟩

/-- The operation that reads the link info. -/
def linkinfoGet : Operation := ⟨2, 0x0e, some (lit "LINKINFO_GET"), none, none⟩

/-- The link info of one interface is asked for by its name. -/
theorem linkinfoGet_reads : ∃ schema m,
    (Request.invoke linkinfoGet ethtoolFamily [(lit "ifname", lit "eth0")]).message 1 = some m ∧
      EthtoolReads schema [(lit "ifname", lit "eth0")] m ∧
      nestContents (m.drop 20) = [(2, lit "eth0" ++ [0])] := by
  have schema : ethtoolSchema linkinfoGet ethtoolFamily = .ok ⟨lit "LINKINFO", ⟨lit "LINKINFO",
      ⟨[⟨1, some (lit "HEADER"), none⟩, ⟨2, some (lit "PORT"), none⟩], 16⟩⟩, 1, 2, 1⟩ := rfl
  have reads := (ethtoolGet_reads linkinfoGet ethtoolFamily [(lit "ifname", lit "eth0")]
    (by decide +kernel) schema (by decide) (by decide) (by decide)).1
  obtain ⟨m, message⟩ : ∃ m, (Request.invoke linkinfoGet ethtoolFamily
      [(lit "ifname", lit "eth0")]).message 1 = some m := ⟨_, rfl⟩
  exact ⟨_, m, message, reads 1 m message, (reads 1 m message).name _ rfl⟩

end Ykern.Genl
