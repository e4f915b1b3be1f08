import Ykern.Genl.Transport
import Ykern.Rtnl.Render

/-!
# Invoking operations of the route namespace

An operation asks for a dump on the socket of its namespace, whatever its arguments, and
receives replies up to the end of the dump (`rtnlBody`). The loop is that of the generic
netlink invocations written once more; what it renders for a reply starts with the fixed
header of the message type.

When a system call fails, the operation answers with a text that tells so.
-/

set_option autoImplicit false

namespace Ykern.Rtnl

open Genl Netlink Overlay

/-- `ykern_ynetlink_rtnl_namespace`, and what is queued on its socket. -/
structure RtnlNamespace where
  isOpen : Bool
  seq : UInt32
  queue : List Datagram

/-- What an operation meets; `errno` is that of the system call that fails. -/
structure RtnlEnv extends Env where
  errno : Int

/-- `rtnl_socket_get`. -/
def rtnlSocketGet (ns : RtnlNamespace) (env : RtnlEnv) : Except Int RtnlNamespace :=
  if ns.isOpen then .ok ns
  else if env.socketFault.isSome then .error env.errno
  else .ok { ns with isOpen := true }

/-- The request of an operation: a message header and `rtgenmsg`, with its padding. -/
def rtnlRequest (op : RtnlOp) (seq : UInt32) : Bytes :=
  msg (rtnlOps op).msgType (nlmFRequest ||| nlmFDump) seq [(rtnlOps op).defaultFamily, 0, 0, 0]

/-- The format of `rtnl_op_invoke`. -/
def rtnlFormat (op : RtnlOp) (strerror : Int → CStr) : ReplyFormat where
  dumpMode := true
  attrsSet := none
  overlay := none
  subject := (rtnlOps op).name
  strerror := strerror

/-- The text `rtnl_op_invoke` starts with. -/
def rtnlHeader (op : RtnlOp) : Bytes :=
  (rtnlOps op).name ++ lit " reply (rtnl msg_type=" ++ decimal (rtnlOps op).msgType.toNat ++
    lit ", family=" ++ decimal (rtnlOps op).defaultFamily.toNat ++ lit ") [DUMP]:\n"

/-- What is rendered for a reply: its fixed header, and the attributes behind it. -/
def renderRtnlReply (op : RtnlOp) (buf : Mem) (nh : Nat) : Bytes :=
  let skip := align4 (rtnlOps op).hdrSkip
  renderMsgHeader (rtnlOps op) buf (nh + 16) ++
    (nla.walk buf (nh + 16 + skip) (toInt (nlmsg.declaredAt buf nh) - 16 - skip)).flatMap fun na =>
      renderRtnlAttr (rtnlOps op).attrs (nla.recordAt buf na)

/-- The body of the receive loop of `rtnl_op_invoke`. -/
def rtnlBody (op : RtnlOp) (strerror : Int → CStr) (buf : Mem) (l : InvokeLocals) (nh : Nat) :
    Control InvokeLocals (InvokeLocals × Except Error CStr) :=
  if buf.load16 (nh + 4) = nlmsgDone then .stop l
  else if buf.load16 (nh + 4) = nlmsgError then
    if buf.load32 (nh + 16) = 0 then .next l
    else
      let code := negatedCode (buf.load32 (nh + 16))
      .done (l, .ok (kernelErrorText (rtnlFormat op strerror) code l.replyCount))
  else
    .next {
      text := l.text ++ (lit "\n--- entry " ++ decimal (l.replyCount + 1) ++ lit " ---\n") ++
        renderRtnlReply op buf nh
      replyCount := l.replyCount + 1
      rendered := l.rendered ++ [nlmsg.recordAt buf nh] }

/-- The text of a system call that failed. -/
def rtnlFailure (call : String) (env : RtnlEnv) : CStr :=
  lit "rtnl invoke: " ++ lit call ++ lit " failed (" ++ env.strerror env.errno ++ lit ")"

/-- What comes of an operation: its answer, the namespace, and for the record the messages
it handled. -/
structure RtnlOutcome where
  answer : Answer
  handled : List Bytes
  namespaceAfter : RtnlNamespace

/-- `rtnl_op_invoke`. -/
def rtnlOpInvoke (op : RtnlOp) (_args : InvokeArgs) (ns : RtnlNamespace) (env : RtnlEnv) :
    RtnlOutcome :=
  match rtnlSocketGet ns env with
  | .error _ => ⟨.text (.ok (rtnlFailure "socket" env)), [], ns⟩
  | .ok ns =>
      let ns := { ns with seq := ns.seq + 1 }
      if env.sendFails then ⟨.text (.ok (rtnlFailure "sendto" env)), [], ns⟩
      else
        let format := rtnlFormat op env.strerror
        match receiveLoop (rtnlBody op env.strerror)
            (fun l => (l, .ok (rtnlFailure "recv" env))) false
            (ns.queue ++ env.answer (rtnlRequest op ns.seq)) env.recvFails env.buf
            ⟨rtnlHeader op, 0, []⟩ with
        | .stopped l left =>
            ⟨.text (.ok (invokeText format (lit "object") (lit "objects") l)), l.rendered,
              { ns with queue := left }⟩
        | .returned r left => ⟨.text r.2, r.1.rendered, { ns with queue := left }⟩
        | .waiting l => ⟨.waiting, l.rendered, { ns with queue := [] }⟩

end Ykern.Rtnl
