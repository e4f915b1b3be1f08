import Ykern.Genl.Invoke
import Ykern.Genl.RequestEncoding

/-!
# Requests on the shared socket

All requests of a transport use its one socket and take their sequence numbers from its
one counter (`socketGet`, `nextSeq`). What the kernel answers is queued on the socket, and
a request receives from the front of the queue, whatever is there; what it does not
receive is there when the next request begins.

The two invocations send and receive alike and differ in their texts (`exchange`). The
enumeration of families does the same with its own checks (`nsPopulateChildren`). What a
request meets, such as the kernel's answer and the failures of system calls, is its
environment (`Env`). Every request carries the number it took (`Request.message_seq`).
-/

set_option autoImplicit false

namespace Ykern.Genl

open Overlay Netlink

/-! ## The transport -/

/-- `ykern_ynetlink_ynetlink`, and what is queued on its socket. -/
structure Transport where
  isOpen : Bool
  seq : UInt32
  queue : List Datagram

/-- `ykern_ynetlink_ynetlink_create`. -/
def Transport.create : Transport := ⟨false, 0, []⟩

/-- How opening a socket fails. -/
inductive SocketFault where
  | socket
  | bind
  deriving DecidableEq

/-- The error of a failure. -/
def SocketFault.error : SocketFault → Error
  | .socket => ["socket(AF_NETLINK) failed"]
  | .bind => ["bind(AF_NETLINK) failed"]

/-- `ykern_ynetlink_ynetlink_socket_get`. -/
def socketGet (t : Transport) (fault : Option SocketFault) : Except Error Transport :=
  if t.isOpen then .ok t
  else
    match fault with
    | some f => .error f.error
    | none => .ok { t with isOpen := true }

/-- `ykern_ynetlink_ynetlink_next_seq`. -/
def nextSeq (t : Transport) : UInt32 × Transport := (t.seq + 1, { t with seq := t.seq + 1 })

/-- What a request meets: whether and how the socket fails to open, the send fails, there is
no memory for the buffer, after how many datagrams `recv` fails, what the kernel answers,
what is in the buffer, and the texts of the error codes. -/
structure Env where
  socketFault : Option SocketFault
  sendFails : Bool
  bufferFails : Bool
  recvFails : Option Nat
  answer : Bytes → List Datagram
  buf : Mem
  strerror : Int → CStr

/-- What a request answers: a text, the children of the namespace, or nothing as it waits. -/
inductive Answer where
  | text (answer : Except Error CStr)
  | children (families : List Family) (result : Except Error Unit)
  | waiting

/-- What comes of a request: its answer, the transport, and for the record the messages it
handled. -/
structure Outcome where
  answer : Answer
  handled : List Bytes
  transport : Transport

/-! ## Invocations -/

/-- The texts in which the invocations differ. -/
structure InvokeTexts where
  socketFailed : String
  sendFailed : String
  recvFailed : String
  one : CStr
  many : CStr

/-- The texts of `invoke_ethtool_get`. -/
def ethtoolTexts : InvokeTexts where
  socketFailed := "ethtool *_GET: socket open failed"
  sendFailed := "ethtool *_GET: sendto failed"
  recvFailed := "ethtool *_GET: recv failed"
  one := lit "interface"
  many := lit "interfaces"

/-- The texts of `invoke_generic_genl`. -/
def genericTexts : InvokeTexts where
  socketFailed := "generic invoke: socket open failed"
  sendFailed := "generic invoke: sendto failed"
  recvFailed := "generic invoke: recv failed"
  one := lit "object"
  many := lit "objects"

/-- What comes of an invocation when its loop has ended. -/
def invokeOutcome (texts : InvokeTexts) (format : ReplyFormat) (t : Transport) :
    Reception InvokeLocals (InvokeLocals × Except Error CStr) → Outcome
  | .stopped l left =>
      ⟨.text (.ok (invokeText format texts.one texts.many l)), l.rendered, { t with queue := left }⟩
  | .returned r left => ⟨.text r.2, r.1.rendered, { t with queue := left }⟩
  | .waiting l => ⟨.waiting, l.rendered, { t with queue := [] }⟩

/-- What the invocations have in common from the request on: send it and receive. -/
def exchange (texts : InvokeTexts) (format : ReplyFormat) (header : Bytes) (attempt : Attempt)
    (t : Transport) (env : Env) : Outcome :=
  match attempt with
  | .text answer => ⟨.text (.ok answer), [], t⟩
  | .error e => ⟨.text (.error e), [], t⟩
  | .send message =>
      match socketGet t env.socketFault with
      | .error e => ⟨.text (.error (texts.socketFailed :: e)), [], t⟩
      | .ok t =>
          if env.sendFails then ⟨.text (.error [texts.sendFailed]), [], t⟩
          else
            invokeOutcome texts format t
              (invokeLoop format header [texts.recvFailed] (t.queue ++ env.answer message)
                env.recvFails env.buf)

/-- `invoke_ethtool_get`. -/
def invokeEthtoolGet (op : Operation) (family : Family) (args : InvokeArgs) (t : Transport)
    (env : Env) : Outcome :=
  match ethtoolSchema op family with
  | .error answer => ⟨.text answer, [], t⟩
  | .ok schema =>
      let (seq, t) := nextSeq t
      exchange ethtoolTexts (ethtoolFormat op family schema args env.strerror)
        (ethtoolHeader op family schema args) (ethtoolRequest op family schema args seq) t env

/-- `invoke_generic_genl`. -/
def invokeGenericGenl (op : Operation) (family : Family) (args : InvokeArgs) (t : Transport)
    (env : Env) : Outcome :=
  let (seq, t) := nextSeq t
  exchange genericTexts (genericFormat op family args env.strerror) (genericHeader op family args)
    (genericRequest op family args seq) t env

/-- The operations `op_invoke` passes to `invoke_ethtool_get`. -/
def isEthtoolGet (op : Operation) (family : Family) : Bool :=
  family.name == lit "ethtool" && opNameEndsInGet op.overlayName

/-- `op_invoke`. -/
def opInvoke (op : Operation) (family : Family) (args : InvokeArgs) (t : Transport) (env : Env) :
    Outcome :=
  if isEthtoolGet op family then invokeEthtoolGet op family args t env
  else invokeGenericGenl op family args t env

/-! ## The enumeration of families -/

/-- What comes of the enumeration when its loop has ended. -/
def populateOutcome (t : Transport) :
    Reception PopulateLocals (PopulateLocals × Error) → Outcome
  | .stopped l left => ⟨.children l.children (.ok ()), l.processed, { t with queue := left }⟩
  | .returned r left =>
      ⟨.children r.1.children (.error r.2), r.1.processed, { t with queue := left }⟩
  | .waiting l => ⟨.waiting, l.processed, { t with queue := [] }⟩

/-- `ns_populate_children`. -/
def nsPopulateChildren (base : CStr) (files : CStr → OverlayFile) (children : List Family)
    (t : Transport) (env : Env) : Outcome :=
  match socketGet t env.socketFault with
  | .error e => ⟨.children children (.error ("genl populate: socket open failed" :: e)), [], t⟩
  | .ok t =>
      let (seq, t) := nextSeq t
      if env.sendFails then
        ⟨.children children (.error ["genl populate: sendto failed"]), [], t⟩
      else
        let queue := t.queue ++ env.answer (dumpRequest seq)
        if env.bufferFails then
          ⟨.children children (.error ["genl populate: dump buffer alloc failed"]), [],
            { t with queue := queue }⟩
        else
          populateOutcome t (populateLoop base files seq queue env.recvFails env.buf children)

/-! ## Requests -/

/-- What is asked of the transport. -/
inductive Request where
  | populate (base : CStr) (files : CStr → OverlayFile) (children : List Family)
  | invoke (op : Operation) (family : Family) (args : InvokeArgs)

/-- What comes of a request. -/
def Request.run : Request → Transport → Env → Outcome
  | .populate base files children, t, env => nsPopulateChildren base files children t env
  | .invoke op family args, t, env => opInvoke op family args t env

/-- The message of an attempt that sends one. -/
def Attempt.message : Attempt → Option Bytes
  | .send m => some m
  | .text _ | .error _ => none

/-- The message of a request, which is sent if the socket allows. -/
def Request.message : Request → UInt32 → Option Bytes
  | .populate _ _ _, seq => some (dumpRequest seq)
  | .invoke op family args, seq =>
      if isEthtoolGet op family then
        match ethtoolSchema op family with
        | .error _ => none
        | .ok schema => (ethtoolRequest op family schema args seq).message
      else (genericRequest op family args seq).message

/-! ## The numbers of requests -/

/-- The buffer holds a header with this sequence number. -/
structure AttrBuf.Numbered (b : AttrBuf) (seq : UInt32) : Prop where
  behind : 20 ≤ b.off
  load : b.data.load32 8 = seq

/-- Writing behind the number keeps it. -/
theorem load32_place_behind (mem : Mem) (bs : Bytes) {p : Nat} (behind : 12 ≤ p) :
    (mem.place bs p).load32 8 = mem.load32 8 := by
  have same (a : Nat) (before : a < 12) : mem.place bs p a = mem a :=
    Mem.place_outside mem (.inl (by omega))
  rw [Mem.load32, same 8 (by omega), same 9 (by omega), same 10 (by omega), same 11 (by omega),
    ← Mem.load32]

theorem requestBuf_numbered (op : Operation) (family : Family) (dumpMode : Bool) (seq : UInt32)
    (cap : Nat) : (requestBuf op family dumpMode seq cap).Numbered seq :=
  ⟨Nat.le_refl 20, word32_bytes32 seq⟩

section Numbered

variable {b : AttrBuf} {seq : UInt32} (numbered : b.Numbered seq)

include numbered

theorem abAttr_numbered {type : UInt16} {value : Bytes} {b' : AttrBuf}
    (appended : abAttr b type value = some b') : b'.Numbered seq := by
  obtain ⟨behind, load⟩ := numbered
  simp only [abAttr] at appended
  split at appended
  · obtain rfl := Option.some.inj appended
    refine ⟨by dsimp only; omega, ?_⟩
    rw [load32_place_behind _ _ (by omega), load32_place_behind _ _ (by omega), load]
  · cases appended

theorem abBeginNested_numbered {type : UInt16} {off : Nat} {b' : AttrBuf}
    (begun : abBeginNested b type = some (off, b')) : 20 ≤ off ∧ b'.Numbered seq := by
  obtain ⟨behind, load⟩ := numbered
  simp only [abBeginNested] at begun
  split at begun
  · obtain ⟨rfl, rfl⟩ := Prod.mk.inj (Option.some.inj begun)
    refine ⟨behind, by dsimp only; omega, ?_⟩
    rw [load32_place_behind _ _ (by omega), load]
  · cases begun

theorem abEndNested_numbered {outerOff : Nat} (behind : 20 ≤ outerOff) :
    (abEndNested b outerOff).Numbered seq :=
  ⟨numbered.behind, (load32_place_behind _ _ (by omega)).trans numbered.load⟩

/-- The message in the buffer carries the number. -/
theorem msgSeq_message : msgSeq b.message = seq := by
  have behind := numbered.behind
  have same (a : Nat) (later : 4 ≤ a) :
      b.data.place (bytes32 (UInt32.ofNat b.off)) 0 a = b.data a :=
    Mem.place_outside b.data (.inr (by simpa using later))
  rw [msgSeq, AttrBuf.message, field32_slice _ _ _ (by omega), Mem.load32, same _ (by omega),
    same _ (by omega), same _ (by omega), same _ (by omega), ← Mem.load32, Nat.zero_add]
  exact numbered.load

omit numbered in
theorem packArgs_seq {op : Operation} {family : Family} {attrsSet : AttrSetOverlay}
    {args : InvokeArgs} {m : Bytes} (numbered : b.Numbered seq)
    (sent : packArgs op family attrsSet b args = .send m) : msgSeq m = seq := by
  induction args generalizing b with
  | nil =>
      rw [packArgs] at sent
      obtain rfl := Attempt.send.inj sent
      exact msgSeq_message numbered
  | cons arg args ih =>
      obtain ⟨key, val⟩ := arg
      rw [packArgs] at sent
      split at sent
      · cases sent
      · next attrId _ =>
          rcases packValue_eq b attrId.toUInt16 val with ⟨e, packed, _⟩ | ⟨b', packed, appended⟩
          · rw [packed] at sent
            cases sent
          · rw [packed] at sent
            exact ih (abAttr_numbered numbered appended) sent

end Numbered

theorem genericRequest_seq {op : Operation} {family : Family} {args : InvokeArgs} {seq : UInt32}
    {m : Bytes} (sent : genericRequest op family args seq = .send m) : msgSeq m = seq := by
  have numbered := requestBuf_numbered op family args.isEmpty seq 1024
  rw [genericRequest] at sent
  split at sent
  · obtain rfl := Attempt.send.inj sent
    exact msgSeq_message numbered
  · split at sent
    · cases sent
    · exact packArgs_seq numbered sent

theorem ethtoolRequest_seq {op : Operation} {family : Family} {schema : EthtoolSchema}
    {args : InvokeArgs} {seq : UInt32} {m : Bytes}
    (sent : ethtoolRequest op family schema args seq = .send m) : msgSeq m = seq := by
  have numbered := requestBuf_numbered op family (ethtoolDumpMode args) seq 256
  rw [ethtoolRequest] at sent
  split at sent
  · cases sent
  · next hdrOff b begun =>
      obtain ⟨behind, nested⟩ := abBeginNested_numbered numbered begun
      have ended {b' : AttrBuf} (numbered' : b'.Numbered seq)
          (sent : Attempt.send (abEndNested b' hdrOff).message = .send m) : msgSeq m = seq := by
        obtain rfl := Attempt.send.inj sent
        exact msgSeq_message (abEndNested_numbered numbered' behind)
      split at sent
      · split at sent
        · cases sent
        · next b' appended => exact ended (abAttr_numbered nested appended) sent
      · dsimp only at sent
        split at sent
        · cases sent
        · split at sent
          · cases sent
          · next b' appended => exact ended (abAttr_numbered nested appended) sent
      · exact ended nested sent

/-- The message of an attempt is what it sends. -/
theorem Attempt.message_eq_some {attempt : Attempt} {m : Bytes} :
    attempt.message = some m ↔ attempt = .send m := by
  cases attempt <;> simp [Attempt.message]

/-- **Every request carries the sequence number it took.** -/
theorem Request.message_seq {request : Request} {seq : UInt32} {m : Bytes}
    (message : request.message seq = some m) : msgSeq m = seq := by
  cases request with
  | populate base files children =>
      obtain rfl := Option.some.inj message
      exact msgSeq_msg _
  | invoke op family args =>
      rw [Request.message] at message
      split at message
      · split at message
        · cases message
        · exact ethtoolRequest_seq (Attempt.message_eq_some.mp message)
      · exact genericRequest_seq (Attempt.message_eq_some.mp message)

end Ykern.Genl
