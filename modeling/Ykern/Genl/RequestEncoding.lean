import Ykern.Genl.Request

/-!
# What a generic request says

The buffer of a request holds what was written to it and zeroes behind
(`AttrBuf.Holds`). Appending an attribute appends its bytes, with zeroes up to a
multiple of four (`abAttr_holds`), so a loop over arguments writes the stream of
their attributes or stops (`packArgs_eq`).

The generic request is therefore sent exactly when every key is a name of the
attribute set and the attributes fit. Its attributes are walked to their end, one
for each argument, with the identifier of the key and the encoding of the value
(`genericRequest_spec`).
-/

set_option autoImplicit false

namespace Ykern.Genl

open Overlay Netlink

/-- The buffer holds these bytes, and zeroes behind them. -/
structure AttrBuf.Holds (b : AttrBuf) (written : Bytes) : Prop where
  off : b.off = written.length
  slice : b.data.slice 0 b.off = written
  zero : ∀ a, b.off ≤ a → b.data a = 0

/-- An attribute is appended when its padded bytes fit. -/
theorem abAttr_eq_none {b : AttrBuf} {type : UInt16} {value : Bytes} :
    abAttr b type value = none ↔ b.cap < b.off + align4 (4 + value.length) := by
  simp [abAttr, AttrBuf.reserve]

/-- Writing behind what was written. -/
theorem AttrBuf.Holds.extend {b : AttrBuf} {written : Bytes} (holds : b.Holds written) (bs : Bytes) :
    AttrBuf.Holds { b with data := b.data.place bs b.off, off := b.off + bs.length }
      (written ++ bs) := by
  obtain ⟨off, slice, zero⟩ := holds
  have before : (b.data.place bs b.off).slice 0 b.off = written := by
    rw [← slice]
    exact Mem.slice_congr fun a _ within => Mem.place_outside b.data (.inl (by omega))
  refine ⟨?_, ?_, ?_⟩
  · rw [List.length_append, ← off]
  · rw [Mem.slice_add, before, Nat.zero_add, Mem.slice_place]
  · intro a behind
    have behind : b.off + bs.length ≤ a := behind
    show b.data.place bs b.off a = 0
    rw [Mem.place_outside b.data (.inr behind)]
    exact zero a (by omega)

/-- Leaving zeroes behind what was written. -/
theorem AttrBuf.Holds.skip {b : AttrBuf} {written : Bytes} (holds : b.Holds written) (n : Nat) :
    AttrBuf.Holds { b with off := b.off + n } (written ++ List.replicate n 0) := by
  obtain ⟨off, slice, zero⟩ := holds
  refine ⟨?_, ?_, ?_⟩
  · rw [List.length_append, List.length_replicate, ← off]
  · rw [Mem.slice_add, slice, Nat.zero_add, Mem.slice_of_zero zero]
  · intro a behind
    exact zero a (Nat.le_trans (Nat.le_add_right _ _) behind)

/-- **Appending an attribute appends its bytes and its padding.** -/
theorem abAttr_holds {b b' : AttrBuf} {written : Bytes} (holds : b.Holds written) {type : UInt16}
    {value : Bytes} (appended : abAttr b type value = some b') :
    b'.cap = b.cap ∧ b'.Holds (written ++ Framing.padded (attr type value)) := by
  simp only [abAttr] at appended
  split at appended
  · obtain rfl := Option.some.inj appended
    have placed : (b.data.place (bytes16 (UInt16.ofNat (4 + value.length)) ++ bytes16 type) b.off).place
        value (b.off + 4) = b.data.place (attr type value) b.off :=
      Mem.place_append b.data _ value b.off
    have size : (attr type value).length + padding (attr type value).length =
        align4 (4 + value.length) := by
      rw [add_padding, length_attr]
    have behind := (holds.extend (attr type value)).skip (padding (attr type value).length)
    rw [List.append_assoc] at behind
    refine ⟨rfl, ?_⟩
    rw [placed, ← size, ← Nat.add_assoc]
    exact behind
  · cases appended

/-! ## The arguments -/

/-- The payload that encodes a value: a number of 32 bits when it is one, and the
string with its NUL otherwise. -/
def argPayload (val : CStr) : Bytes :=
  if (val ≠ [] ∧ ∀ c ∈ val, isDigit c = true) ∧ digitsValue val ≤ 2 ^ 32 - 1 then
    bytes32 (UInt32.ofNat (digitsValue val))
  else val ++ [0]

/-- The attribute of an argument. -/
def argAttr (attrsSet : AttrSetOverlay) (arg : CStr × CStr) : Bytes :=
  attr ((attrSetLookupId attrsSet arg.1).getD 0).toUInt16 (argPayload arg.2)

/-- A value is packed as its payload, or there is no room. -/
theorem packValue_eq (b : AttrBuf) (type : UInt16) (val : CStr) :
    (∃ e, packValue b type val = .error e ∧ abAttr b type (argPayload val) = none) ∨
      ∃ b', packValue b type val = .ok b' ∧ abAttr b type (argPayload val) = some b' := by
  have classified : (looksLikeUint val = true ∧ (strtoul val).rest = [] ∧
      (strtoul val).value ≤ 2 ^ 32 - 1) ↔
      (val ≠ [] ∧ ∀ c ∈ val, isDigit c = true) ∧ digitsValue val ≤ 2 ^ 32 - 1 := by
    simp only [looksLikeUint, Bool.and_eq_true, decide_eq_true_eq, List.all_eq_true]
    constructor
    · rintro ⟨digits, _, small⟩
      rw [strtoul_digits digits.1 digits.2] at small
      split at small
      · simp only [ulongRange] at small
        omega
      · exact ⟨digits, small⟩
    · rintro ⟨digits, small⟩
      rw [strtoul_digits digits.1 digits.2, if_neg (by unfold ulongRange; omega)]
      exact ⟨digits, rfl, small⟩
  unfold packValue
  by_cases number : (val ≠ [] ∧ ∀ c ∈ val, isDigit c = true) ∧ digitsValue val ≤ 2 ^ 32 - 1
  · have value : (strtoul val).value = digitsValue val := by
      rw [strtoul_digits number.1.1 number.1.2, if_neg (by have := number.2; unfold ulongRange; omega)]
    dsimp only
    rw [if_pos (classified.mpr number), value, argPayload, if_pos number, abU32]
    cases appended : abAttr b type (bytes32 (UInt32.ofNat (digitsValue val))) with
    | none => exact .inl ⟨_, rfl, rfl⟩
    | some b' => exact .inr ⟨b', rfl, rfl⟩
  · dsimp only
    rw [if_neg fun packed => number (classified.mp packed), argPayload, if_neg number, abString]
    cases appended : abAttr b type (val ++ [0]) with
    | none => exact .inl ⟨_, rfl, rfl⟩
    | some b' => exact .inr ⟨b', rfl, rfl⟩

/-- The arguments are refused: a key is unknown, or the attributes do not fit. -/
def Refused (attrsSet : AttrSetOverlay) (room : Nat) (args : InvokeArgs) : Prop :=
  (∃ arg ∈ args, attrSetLookupId attrsSet arg.1 = none) ∨
    room < (args.map fun arg => align4 (4 + (argPayload arg.2).length)).sum

/-- Behind an argument that is packed there is less room for the others. -/
theorem refused_cons {attrsSet : AttrSetOverlay} {room : Nat} {arg : CStr × CStr}
    {args : InvokeArgs} (known : attrSetLookupId attrsSet arg.1 ≠ none)
    (fits : align4 (4 + (argPayload arg.2).length) ≤ room) :
    Refused attrsSet room (arg :: args) ↔
      Refused attrsSet (room - align4 (4 + (argPayload arg.2).length)) args := by
  simp only [Refused, List.mem_cons, exists_eq_or_imp, known, false_or, List.map_cons,
    List.sum_cons]
  refine or_congr_right ?_
  omega

/-- **The loop over the arguments writes their attributes and sends**, or stops when
they are refused. -/
theorem packArgs_eq (op : Operation) (family : Family) (attrsSet : AttrSetOverlay) {b : AttrBuf}
    {written : Bytes} (holds : b.Holds written) (fits : b.off ≤ b.cap) (args : InvokeArgs) :
    (Refused attrsSet (b.cap - b.off) args ∧ ∀ m, packArgs op family attrsSet b args ≠ .send m) ∨
      (¬Refused attrsSet (b.cap - b.off) args ∧ ∃ b' : AttrBuf,
        b'.Holds (written ++ Framing.encode (args.map (argAttr attrsSet))) ∧
          packArgs op family attrsSet b args = .send b'.message) := by
  induction args generalizing b written with
  | nil => exact .inr ⟨by simp [Refused], b, by simpa using holds, rfl⟩
  | cons arg args ih =>
      obtain ⟨key, val⟩ := arg
      simp only [packArgs, List.map_cons]
      cases known : attrSetLookupId attrsSet key with
      | none =>
          refine .inl ⟨.inl ⟨_, List.mem_cons_self, known⟩, ?_⟩
          intro m impossible
          cases impossible
      | some attrId =>
          rcases packValue_eq b attrId.toUInt16 val with ⟨e, packed, full⟩ | ⟨b', packed, appended⟩
          · have tooLong := abAttr_eq_none.mp full
            simp only [packed]
            refine .inl ⟨.inr ?_, ?_⟩
            · rw [List.map_cons, List.sum_cons]
              dsimp only
              omega
            · intro m impossible
              cases impossible
          · have room : ¬b.cap < b.off + align4 (4 + (argPayload val).length) := fun tooLong => by
              rw [abAttr_eq_none.mpr tooLong] at appended
              cases appended
            obtain ⟨cap, holds'⟩ := abAttr_holds holds appended
            have off : b'.off = b.off + align4 (4 + (argPayload val).length) := by
              rw [holds'.off, List.length_append, Framing.length_padded, length_attr, holds.off]
            have refused : Refused attrsSet (b.cap - b.off) ((key, val) :: args) ↔
                Refused attrsSet (b'.cap - b'.off) args := by
              rw [refused_cons (by simp [known]) (by dsimp only; omega), cap, off]
              dsimp only
              rw [Nat.sub_add_eq]
            simp only [packed]
            rcases ih holds' (by omega) with ⟨stops, never⟩ | ⟨goes, b'', holds'', sent⟩
            · exact .inl ⟨refused.mpr stops, never⟩
            · refine .inr ⟨fun stops => goes (refused.mp stops), b'', ?_, sent⟩
              simpa [argAttr, known] using holds''

/-! ## The request -/

/-- The flags of a request. -/
def requestFlags (dumpMode : Bool) : UInt16 :=
  if dumpMode then nlmFRequest ||| nlmFDump else nlmFRequest

/-- The buffer of a request holds its headers, with no length. -/
theorem requestBuf_holds (op : Operation) (family : Family) (dumpMode : Bool) (seq : UInt32)
    (cap : Nat) : ∃ cmd version, (requestBuf op family dumpMode seq cap).Holds
      ([0, 0, 0, 0] ++ bytes16 family.id ++ bytes16 (requestFlags dumpMode) ++ bytes32 seq ++
        bytes32 0 ++ genlHeader cmd version) := by
  refine ⟨_, _, rfl, rfl, ?_⟩
  intro a behind
  exact Mem.place_outside (fun _ => 0) (.inr (show 20 ≤ a from behind))

/-- The message is what the buffer holds, with its length in front. -/
theorem message_eq {b : AttrBuf} {first rest : Bytes} (holds : b.Holds (first ++ rest))
    (length : first.length = 4) :
    b.message = bytes32 (UInt32.ofNat (4 + rest.length)) ++ rest := by
  have off : b.off = 4 + rest.length := by rw [holds.off, List.length_append, length]
  have header := Mem.slice_place b.data (bytes32 (UInt32.ofNat (4 + rest.length))) 0
  rw [length_bytes32] at header
  have behind : (b.data.place (bytes32 (UInt32.ofNat (4 + rest.length))) 0).slice 4 rest.length =
      rest := by
    have held := holds.slice
    rw [off, Mem.slice_add, Nat.zero_add] at held
    have kept := (List.append_inj held (by rw [Mem.length_slice, length])).2
    refine (Mem.slice_congr fun a later _ => ?_).trans kept
    exact Mem.place_outside b.data (.inr (by simpa using later))
  rw [AttrBuf.message, off, Mem.slice_add, Nat.zero_add, header, behind]

/-- The size of a request with these arguments. -/
def requestSize (args : InvokeArgs) : Nat :=
  20 + (args.map fun arg => align4 (4 + (argPayload arg.2).length)).sum

/-- What is sent is the message with the attributes that were written behind its headers. -/
theorem message_of_holds {family : Family} {flags : UInt16} {seq : UInt32} {cmd version : UInt8}
    {attrs : Bytes} {b : AttrBuf}
    (holds : b.Holds ([0, 0, 0, 0] ++ bytes16 family.id ++ bytes16 flags ++ bytes32 seq ++
      bytes32 0 ++ genlHeader cmd version ++ attrs)) :
    b.message = msg family.id flags seq (genlHeader cmd version ++ attrs) := by
  rw [List.append_assoc, List.append_assoc, List.append_assoc, List.append_assoc,
    List.append_assoc] at holds
  rw [message_eq holds rfl]
  simp only [msgAt, msgHeader, List.append_assoc, List.length_append, length_bytes16,
    length_bytes32]
  congr 3
  omega

/-- **The generic request is sent unless the arguments are refused, as the message
with their attributes.** -/
theorem genericRequest_sends (op : Operation) (family : Family) {args : InvokeArgs} (seq : UInt32)
    (nonempty : args ≠ []) {attrsSet : AttrSetOverlay}
    (found : genericAttrSet op family = some attrsSet) :
    (Refused attrsSet 1004 args ∧ ∀ m, genericRequest op family args seq ≠ .send m) ∨
      (¬Refused attrsSet 1004 args ∧ ∃ cmd version,
        genericRequest op family args seq = .send (msg family.id nlmFRequest seq
          (genlHeader cmd version ++ Framing.encode (args.map (argAttr attrsSet))))) := by
  have notEmpty : args.isEmpty = false := by simpa using nonempty
  obtain ⟨cmd, version, holds⟩ := requestBuf_holds op family args.isEmpty seq 1024
  have flags : requestFlags args.isEmpty = nlmFRequest := by rw [notEmpty]; rfl
  rw [flags] at holds
  have request : genericRequest op family args seq =
      packArgs op family attrsSet (requestBuf op family args.isEmpty seq 1024) args := by
    unfold genericRequest
    dsimp only
    rw [if_neg (by simp [notEmpty]), found]
  rw [request]
  rcases packArgs_eq op family attrsSet holds (show 20 ≤ 1024 by decide) args with
    ⟨stops, never⟩ | ⟨goes, b, holds', sent⟩
  · exact .inl ⟨stops, never⟩
  · exact .inr ⟨goes, cmd, version, sent.trans (congrArg Attempt.send (message_of_holds holds'))⟩

/-- The attributes of arguments that are not refused are whole. -/
theorem argAttr_isFrame {attrsSet : AttrSetOverlay} {args : InvokeArgs}
    (accepted : ¬Refused attrsSet 1004 args) :
    ∀ f ∈ args.map (argAttr attrsSet), nla.IsFrame f := by
  intro f member
  obtain ⟨arg, member', rfl⟩ := List.mem_map.mp member
  have one : align4 (4 + (argPayload arg.2).length) ≤
      (args.map fun arg => align4 (4 + (argPayload arg.2).length)).sum :=
    List.le_sum_of_mem (List.mem_map.mpr ⟨arg, member', rfl⟩)
  have all := (not_or.mp accepted).2
  have long := le_align4 (4 + (argPayload arg.2).length)
  exact attr_isFrame _ (by omega)

theorem length_encode_argAttr (attrsSet : AttrSetOverlay) (args : InvokeArgs) :
    (Framing.encode (args.map (argAttr attrsSet))).length =
      (args.map fun arg => align4 (4 + (argPayload arg.2).length)).sum := by
  induction args with
  | nil => rfl
  | cons arg args ih => simp [ih, argAttr]

/-- A known key gives its attribute the identifier of the set as its type. -/
theorem rawType_argAttr {attrsSet : AttrSetOverlay} {arg : CStr × CStr}
    (small : ∀ a ∈ attrsSet.attrs.items, a.attrId.toNat < 2 ^ 14)
    (known : attrSetLookupId attrsSet arg.1 ≠ none) :
    some (rawType (argAttr attrsSet arg)).toNat =
      (attrSetLookupId attrsSet arg.1).map (·.toNat) := by
  obtain ⟨attrId, found⟩ := Option.ne_none_iff_exists'.mp known
  have bound : attrId.toNat < 2 ^ 14 := by
    obtain ⟨a, first, rfl⟩ := Option.map_eq_some_iff.mp found
    exact small a (List.mem_of_find?_eq_some first)
  rw [argAttr, rawType_attr, found, Option.getD_some, Option.map_some, UInt32.toNat_toUInt16,
    Nat.mod_eq_of_lt (by omega)]

/-- **A generic invocation with arguments sends nothing when a key is unknown or the
request is longer than 1024 bytes, and otherwise one message.** Its length is that of
the request; wherever it is stored, its attributes are walked to their end, one for
each argument, with the identifier of the key and the encoding of the value; and they
are padded with zeroes. -/
theorem genericRequest_spec (op : Operation) (family : Family) (args : InvokeArgs) (seq : UInt32)
    (nonempty : args ≠ []) (attrsSet : AttrSetOverlay)
    (found : genericAttrSet op family = some attrsSet)
    (small : ∀ a ∈ attrsSet.attrs.items, a.attrId.toNat < 2 ^ 14) :
    ((∀ m, genericRequest op family args seq ≠ .send m) ↔
        (∃ arg ∈ args, attrSetLookupId attrsSet arg.1 = none) ∨ 1024 < requestSize args) ∧
      ∀ m, genericRequest op family args seq = .send m →
        m.length = requestSize args ∧ nlmsg.declared m = requestSize args ∧
          requestSize args ≤ 1024 ∧
          (∀ (mem : Mem) (p : Nat), mem.slice p m.length = m →
            nla.walkRest mem (p + 20) (m.length - 20) = 0 ∧
              (nla.walk mem (p + 20) (m.length - 20)).map (fun a =>
                  (some (rawType (nla.recordAt mem a)).toNat, payload (nla.recordAt mem a))) =
                args.map fun arg =>
                  ((attrSetLookupId attrsSet arg.1).map (·.toNat), argPayload arg.2)) ∧
          msgAttrs m = Framing.encode (nla.frames (msgAttrs m)) := by
  have refused : Refused attrsSet 1004 args ↔
      (∃ arg ∈ args, attrSetLookupId attrsSet arg.1 = none) ∨ 1024 < requestSize args := by
    unfold Refused requestSize
    refine or_congr_right ?_
    omega
  rcases genericRequest_sends op family seq nonempty found with
    ⟨stops, never⟩ | ⟨accepted, cmd, version, sent⟩
  · exact ⟨iff_of_true never (refused.mp stops), fun m sent => absurd sent (never m)⟩
  refine ⟨iff_of_false (fun never => never _ sent) fun stops => accepted (refused.mpr stops), ?_⟩
  intro m same
  obtain rfl := Attempt.send.inj (sent.symm.trans same)
  have frames := argAttr_isFrame accepted
  have length : (msg family.id nlmFRequest seq (genlHeader cmd version ++
      Framing.encode (args.map (argAttr attrsSet)))).length = requestSize args := by
    rw [length_msg, List.length_append, length_encode_argAttr]
    simp only [genlHeader, List.length_cons, List.length_nil, requestSize]
    omega
  have fits : requestSize args ≤ 1024 := by
    have := not_or.mp fun stops => accepted (refused.mpr stops)
    omega
  have whole := (@msg_isFrame family.id nlmFRequest seq 0 _ (by rw [length_msg] at length; omega :
    16 + (genlHeader cmd version ++ Framing.encode (args.map (argAttr attrsSet))).length < 2 ^ 32)).2
  refine ⟨length, whole.trans length, fits, ?_, ?_⟩
  · intro mem p stored
    have encoded : mem.slice (p + 20) (Framing.encode (args.map (argAttr attrsSet))).length =
        Framing.encode (args.map (argAttr attrsSet)) := by
      have split : (msg family.id nlmFRequest seq (genlHeader cmd version ++
          Framing.encode (args.map (argAttr attrsSet)))).length =
          20 + (Framing.encode (args.map (argAttr attrsSet))).length := by
        rw [length, length_encode_argAttr, requestSize]
      rw [split, Mem.slice_add] at stored
      have behind := congrArg msgAttrs stored
      rwa [msgAttrs_msg, msgAttrs, List.drop_left' (Mem.length_slice mem p 20)] at behind
    have rem : ((msg family.id nlmFRequest seq (genlHeader cmd version ++
        Framing.encode (args.map (argAttr attrsSet)))).length : Int) - 20 =
        (Framing.encode (args.map (argAttr attrsSet))).length := by
      rw [length, length_encode_argAttr, requestSize]
      push_cast
      omega
    rw [rem]
    refine ⟨Framing.walkRest_encode frames encoded, ?_⟩
    have visited := nla.walk_frames mem (p + 20) (Framing.encode (args.map (argAttr attrsSet))).length
    rw [Int.toNat_natCast, encoded, Framing.frames_encode frames] at visited
    have each := congrArg (List.map fun f => (some (rawType f).toNat, payload f)) visited
    rw [List.map_map, List.map_map] at each
    refine each.trans (List.map_congr_left fun arg member => ?_)
    have known : attrSetLookupId attrsSet arg.1 ≠ none := fun unknown =>
      accepted (.inl ⟨arg, member, unknown⟩)
    exact Prod.ext (rawType_argAttr small known)
      (payload_attr ((attrSetLookupId attrsSet arg.1).getD 0).toUInt16 (argPayload arg.2))
  · rw [msgAttrs_msg, Framing.frames_encode frames]

/-- A flat set of two attributes. -/
def wirelessAttrs : AttrSetOverlay :=
  ⟨lit "ATTRS", ⟨[⟨3, some (lit "IFINDEX"), none⟩, ⟨4, some (lit "IFNAME"), none⟩], 16⟩⟩

/-- A family with this set. -/
def wirelessFamily : Family :=
  ⟨lit "nl80211", 30, 1, 0, 0, [], [], some { FamilyOverlay.zero with
    attrSets := ⟨[wirelessAttrs], 16⟩ }⟩

/-- One argument that is a number and one that is not. -/
def wirelessArgs : InvokeArgs := [(lit "IFINDEX", lit "2"), (lit "IFNAME", lit "wlan0")]

/-- Their request is sent, and is 40 bytes long. -/
theorem genericRequest_wireless : ∃ m,
    genericRequest ⟨5, 0, none, none, none⟩ wirelessFamily wirelessArgs 1 = .send m ∧
      m.length = 40 ∧ msgAttrs m = Framing.encode (nla.frames (msgAttrs m)) := by
  have spec := genericRequest_spec ⟨5, 0, none, none, none⟩ wirelessFamily wirelessArgs 1
    (by decide) wirelessAttrs rfl (by decide)
  have sent : ∃ m,
      genericRequest ⟨5, 0, none, none, none⟩ wirelessFamily wirelessArgs 1 = .send m := by
    by_contra unsent
    exact absurd (spec.1.mp (not_exists.mp unsent)) (by decide +kernel)
  obtain ⟨m, sent⟩ := sent
  obtain ⟨length, _, _, _, padded⟩ := spec.2 m sent
  exact ⟨m, sent, length.trans (by decide +kernel), padded⟩

end Ykern.Genl
