import Ykern.Foundation.MemoryWalk

/-!
# Netlink messages and attributes

A netlink message starts with a header of 16 bytes, the first four of which are its
length; an attribute starts with a header of four, of which the first two are its
length. Both are framings of the same kind, and the macros of the kernel headers
walk them alike: `NLMSG_OK` and `NLA_OK` are `Framing.Ok`, and a loop with
`NLMSG_NEXT` or `NLA_NEXT` is `Framing.walk`.

A generic netlink message continues with a command, a version and two reserved
bytes, and then attributes. What is built here is read back (`attr_isFrame`,
`attrType_attr`, `payload_attr`), and what an attribute in memory holds is a window
of memory (`payload_recordAt`).
-/

set_option autoImplicit false

namespace Ykern.Netlink

/-! ## Attributes -/

/-- `struct nlattr`: length and type, of two bytes each. -/
def nla : Framing where
  header := 4
  declared bs :=
    match bs with
    | b0 :: b1 :: _ => (word16 b0 b1).toNat
    | _ => 0
  header_pos := by decide
  declared_append bs more long := by
    obtain ⟨b0, b1, rest, rfl⟩ : ∃ b0 b1 rest, bs = b0 :: b1 :: rest := by
      match bs, long with
      | b0 :: b1 :: rest, _ => exact ⟨b0, b1, rest, rfl⟩
    rfl

/-- The bits of a type that are not flags, `NLA_TYPE_MASK`. -/
def nlaTypeMask : UInt16 := 0x3fff

/-- The flag of a type that marks a nest, `NLA_F_NESTED`. -/
def nlaFNested : UInt16 := 0x8000

/-- The type of an attribute, with its flags. -/
def rawType (f : Bytes) : UInt16 :=
  match f with
  | _ :: _ :: b2 :: b3 :: _ => word16 b2 b3
  | _ => 0

/-- The type of an attribute, without its flags. -/
def attrType (f : Bytes) : UInt16 := rawType f &&& nlaTypeMask

/-- `NLA_DATA` and `NLA_PAYLOAD` of an attribute. -/
def payload (f : Bytes) : Bytes := f.drop 4

/-- An attribute. -/
def attr (type : UInt16) (data : Bytes) : Bytes :=
  bytes16 (UInt16.ofNat (4 + data.length)) ++ bytes16 type ++ data

@[simp] theorem length_attr (type : UInt16) (data : Bytes) :
    (attr type data).length = 4 + data.length := by
  simp only [attr, List.length_append, length_bytes16]

theorem attr_isFrame (type : UInt16) {data : Bytes} (short : 4 + data.length < 2 ^ 16) :
    nla.IsFrame (attr type data) := by
  refine ⟨by simp [nla], ?_⟩
  rw [length_attr]
  show (word16 _ _).toNat = _
  rw [word16_bytes16, UInt16.toNat_ofNat', Nat.mod_eq_of_lt short]

@[simp] theorem rawType_attr (type : UInt16) (data : Bytes) : rawType (attr type data) = type :=
  word16_bytes16 type

@[simp] theorem payload_attr (type : UInt16) (data : Bytes) : payload (attr type data) = data := rfl

theorem attrType_attr (type : UInt16) (data : Bytes) :
    attrType (attr type data) = type &&& nlaTypeMask := by
  rw [attrType, rawType_attr]

/-- Below 2^14 a type is kept by the mask. -/
theorem toNat_and_nlaTypeMask {type : UInt16} :
    (type &&& nlaTypeMask).toNat = type.toNat % 2 ^ 14 := by
  rw [UInt16.toNat_and]
  exact Nat.and_two_pow_sub_one_eq_mod _ 14

/-- Of an identifier that is sent as a type, the bits below the flags are read back. -/
theorem toNat_toUInt16_and_nlaTypeMask (id : UInt32) :
    (id.toUInt16 &&& nlaTypeMask).toNat = id.toNat % 2 ^ 14 := by
  rw [toNat_and_nlaTypeMask, UInt32.toNat_toUInt16, Nat.mod_mod_of_dvd _ (by decide)]

/-- The flag of a nest is not kept by the mask. -/
theorem or_nlaFNested_and_nlaTypeMask (type : UInt16) :
    (type ||| nlaFNested) &&& nlaTypeMask = type &&& nlaTypeMask := by
  have flag : nlaFNested.toNat &&& nlaTypeMask.toNat = 0 := by decide
  apply UInt16.toNat_inj.mp
  rw [UInt16.toNat_and, UInt16.toNat_or, Nat.and_or_distrib_right, flag, Nat.or_zero,
    UInt16.toNat_and]

/-- The type of the attribute at an address, with its flags. -/
def rawTypeAt (mem : Mem) (p : Nat) : UInt16 := mem.load16 (p + 2)

theorem rawType_recordAt {mem : Mem} {p : Nat} (covers : 4 ≤ nla.declaredAt mem p) :
    rawType (nla.recordAt mem p) = rawTypeAt mem p := by
  obtain ⟨n, length⟩ := Nat.exists_eq_add_of_le covers
  rw [Framing.recordAt, length, Mem.slice_add]
  rfl

/-- **The payload of an attribute in memory is the window behind its header.** -/
theorem payload_recordAt {mem : Mem} {p : Nat} (covers : 4 ≤ nla.declaredAt mem p) :
    payload (nla.recordAt mem p) = mem.slice (p + 4) (nla.declaredAt mem p - 4) :=
  Mem.drop_slice mem p covers

/-! ## Messages -/

/-- `struct nlmsghdr`: length, type, flags, sequence number and port. -/
def nlmsg : Framing where
  header := 16
  declared bs :=
    match bs with
    | b0 :: b1 :: b2 :: b3 :: _ => (word32 b0 b1 b2 b3).toNat
    | _ => 0
  header_pos := by decide
  declared_append bs more long := by
    obtain ⟨b0, b1, b2, b3, rest, rfl⟩ : ∃ b0 b1 b2 b3 rest, bs = b0 :: b1 :: b2 :: b3 :: rest := by
      match bs, long with
      | b0 :: b1 :: b2 :: b3 :: rest, _ => exact ⟨b0, b1, b2, b3, rest, rfl⟩
    rfl

/-- A 16-bit field of a byte sequence. -/
def field16 (bs : Bytes) (off : Nat) : UInt16 := word16 (bs.getD off 0) (bs.getD (off + 1) 0)

/-- A 32-bit field of a byte sequence. -/
def field32 (bs : Bytes) (off : Nat) : UInt32 :=
  word32 (bs.getD off 0) (bs.getD (off + 1) 0) (bs.getD (off + 2) 0) (bs.getD (off + 3) 0)

theorem field16_slice (mem : Mem) (p n : Nat) {off : Nat} (within : off + 2 ≤ n) :
    field16 (mem.slice p n) off = mem.load16 (p + off) := by
  simp only [field16, Mem.load16, List.getD_eq_getElem?_getD, Mem.getElem?_slice mem
    (show off < n by omega), Mem.getElem?_slice mem (show off + 1 < n by omega), Option.getD_some,
    Nat.add_assoc]

theorem field32_slice (mem : Mem) (p n : Nat) {off : Nat} (within : off + 4 ≤ n) :
    field32 (mem.slice p n) off = mem.load32 (p + off) := by
  simp only [field32, Mem.load32, List.getD_eq_getElem?_getD, Mem.getElem?_slice mem
    (show off < n by omega), Mem.getElem?_slice mem (show off + 1 < n by omega),
    Mem.getElem?_slice mem (show off + 2 < n by omega),
    Mem.getElem?_slice mem (show off + 3 < n by omega), Option.getD_some, Nat.add_assoc]

/-- `NLMSG_ERROR` and `NLMSG_DONE`. -/
def nlmsgError : UInt16 := 2

@[inherit_doc nlmsgError]
def nlmsgDone : UInt16 := 3

/-- `NLM_F_REQUEST` and `NLM_F_DUMP`. -/
def nlmFRequest : UInt16 := 0x1

@[inherit_doc nlmFRequest]
def nlmFDump : UInt16 := 0x300

/-- The type of a message. -/
def msgType (m : Bytes) : UInt16 := field16 m 4

/-- The sequence number of a message. -/
def msgSeq (m : Bytes) : UInt32 := field32 m 8

/-- The flags of a message. -/
def msgFlags (m : Bytes) : UInt16 := field16 m 6

/-- A message header, for a message with so many bytes behind it. -/
def msgHeader (type flags : UInt16) (seq port : UInt32) (behind : Nat) : Bytes :=
  bytes32 (UInt32.ofNat (16 + behind)) ++ bytes16 type ++ bytes16 flags ++ bytes32 seq ++ bytes32 port

/-- `struct genlmsghdr`. -/
def genlHeader (cmd version : UInt8) : Bytes := [cmd, version, 0, 0]

/-- A message, with the port it is sent from or to. -/
def msgAt (type flags : UInt16) (seq port : UInt32) (body : Bytes) : Bytes :=
  msgHeader type flags seq port body.length ++ body

/-- A message as the program sends it: the kernel is at port 0, and the program leaves its own
to the kernel. -/
abbrev msg (type flags : UInt16) (seq : UInt32) (body : Bytes) : Bytes := msgAt type flags seq 0 body

section Msg

variable {type flags : UInt16} {seq port : UInt32}

@[simp] theorem length_msgHeader (behind : Nat) :
    (msgHeader type flags seq port behind).length = 16 := rfl

@[simp] theorem length_msg (body : Bytes) :
    (msgAt type flags seq port body).length = 16 + body.length := by
  simp [msgAt]

theorem msg_isFrame {body : Bytes} (short : 16 + body.length < 2 ^ 32) :
    nlmsg.IsFrame (msgAt type flags seq port body) := by
  refine ⟨by simp [nlmsg], ?_⟩
  rw [length_msg]
  show (word32 _ _ _ _).toNat = _
  rw [word32_bytes32, UInt32.toNat_ofNat', Nat.mod_eq_of_lt short]

@[simp] theorem msgType_msg (body : Bytes) : msgType (msgAt type flags seq port body) = type :=
  word16_bytes16 type

@[simp] theorem msgFlags_msg (body : Bytes) : msgFlags (msgAt type flags seq port body) = flags :=
  word16_bytes16 flags

@[simp] theorem msgSeq_msg (body : Bytes) : msgSeq (msgAt type flags seq port body) = seq :=
  word32_bytes32 seq

end Msg

/-- The bytes from the attributes of a generic netlink message on. -/
def msgAttrs (m : Bytes) : Bytes := m.drop 20

theorem msgAttrs_msg {type flags : UInt16} {seq port : UInt32} (cmd version : UInt8)
    (attrs : Bytes) : msgAttrs (msgAt type flags seq port (genlHeader cmd version ++ attrs)) = attrs :=
  rfl

/-- What `recv` delivers: a datagram of at most the size of the buffer. -/
structure Datagram where
  bytes : Bytes
  fits : bytes.length ≤ 65536

/-- A datagram is made of these messages. -/
def Datagram.Carries (d : Datagram) (ms : List Bytes) : Prop := Framing.Packs nlmsg ms d.bytes

end Ykern.Netlink
