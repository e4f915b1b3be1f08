import Ykern.Genl.EthtoolRequest
import Ykern.Invocation.Dump
import Ykern.Invocation.Nodes

/-!
# What a result tells

A caller sees of an invocation whether its result is an error. The result should tell
whether the request was sent and its answer completed without a failure of the kernel
(`OpNode.Succeeds`).

Many failures are answered with a text, which is no error. Without a request this is so for
the cases of `Told`, and for route operations when a system call fails. When the loop ends
at a message the answer is a text, whatever the message says (`endsAt`). So the result
tells what it should exactly in the other cases (`isOk_iff_succeeds_iff`).
-/

set_option autoImplicit false

namespace Ykern.Invocation

open Genl Rtnl Netlink Overlay

/-! ## Refusals told in a text -/

/-- What an invocation answers with a text, without a request. -/
inductive Told : OpNode → InvokeArgs → Prop where
  /-- The family has no set of attributes for the arguments. -/
  | noAttrs {op : Operation} {family : Family} {t : Transport} {args : InvokeArgs}
      (generic : isEthtoolGet op family = false) (given : args ≠ [])
      (missing : genericAttrSet op family = none) : Told (.genl op family t) args
  /-- A key is unknown, and what is before it is packed. -/
  | unknownKey {op : Operation} {family : Family} {t : Transport} {attrsSet : AttrSetOverlay}
      {before after : InvokeArgs} {arg : CStr × CStr}
      (generic : isEthtoolGet op family = false)
      (found : genericAttrSet op family = some attrsSet)
      (unknown : attrSetLookupId attrsSet arg.1 = none)
      (packed : ¬Refused attrsSet 1004 before) : Told (.genl op family t) (before ++ arg :: after)
  /-- No attribute set can be derived from the name of an ethtool operation. -/
  | noSetName {op : Operation} {family : Family} {t : Transport} {args : InvokeArgs}
      {overlay : FamilyOverlay}
      (ethtool : isEthtoolGet op family = true) (loaded : family.overlay = some overlay)
      (noName : stripOpSuffix op.overlayName 64 = none) : Told (.genl op family t) args
  /-- The overlay does not have the set. -/
  | noSet {op : Operation} {family : Family} {t : Transport} {args : InvokeArgs}
      {overlay : FamilyOverlay} {setName : CStr}
      (ethtool : isEthtoolGet op family = true) (loaded : family.overlay = some overlay)
      (named : stripOpSuffix op.overlayName 64 = some setName)
      (missing : findAttrSet (some overlay) setName = none) : Told (.genl op family t) args
  /-- The set has no header, though the overlay has the set of headers. -/
  | noHeader {op : Operation} {family : Family} {t : Transport} {args : InvokeArgs}
      {overlay : FamilyOverlay} {setName : CStr} {responseSet headerSet : AttrSetOverlay}
      (ethtool : isEthtoolGet op family = true) (loaded : family.overlay = some overlay)
      (named : stripOpSuffix op.overlayName 64 = some setName)
      (found : findAttrSet (some overlay) setName = some responseSet)
      (headers : findAttrSet (some overlay) (lit "HEADER") = some headerSet)
      (missing : attrSetLookupId responseSet (lit "HEADER") = none) : Told (.genl op family t) args
  /-- The index of an interface is not a number of 32 bits. -/
  | malformedIndex {op : Operation} {family : Family} {t : Transport} {args : InvokeArgs}
      {schema : EthtoolSchema} {ifindex : CStr}
      (ethtool : isEthtoolGet op family = true) (found : ethtoolSchema op family = .ok schema)
      (unnamed : argsLookup args (lit "ifname") = none)
      (given : argsLookup args (lit "ifindex") = some ifindex)
      (malformed : (strtoul ifindex).rest ≠ [] ∨ 2 ^ 32 - 1 < (strtoul ifindex).value) :
      Told (.genl op family t) args

/-- The loop over the arguments tells of a key that is unknown if what is before it is packed. -/
theorem packArgs_text_iff (op : Operation) (family : Family) (attrsSet : AttrSetOverlay)
    {b : AttrBuf} {written : Bytes} (holds : b.Holds written) (fits : b.off ≤ b.cap)
    (args : InvokeArgs) :
    (∃ text, packArgs op family attrsSet b args = .text text) ↔
      ∃ before arg after, args = before ++ arg :: after ∧
        attrSetLookupId attrsSet arg.1 = none ∧ ¬Refused attrsSet (b.cap - b.off) before := by
  induction args generalizing b written with
  | nil => simp [packArgs]
  | cons arg args ih =>
      obtain ⟨key, val⟩ := arg
      rw [packArgs]
      cases known : attrSetLookupId attrsSet key with
      | none =>
          refine iff_of_true ⟨_, rfl⟩ ⟨[], (key, val), args, rfl, known, ?_⟩
          simp [Refused]
      | some attrId =>
          -- A key that is known is before the one that is told of.
          have later : (∃ before arg after, (key, val) :: args = before ++ arg :: after ∧
              attrSetLookupId attrsSet arg.1 = none ∧
                ¬Refused attrsSet (b.cap - b.off) before) ↔
              ∃ before arg after, args = before ++ arg :: after ∧
                attrSetLookupId attrsSet arg.1 = none ∧
                  ¬Refused attrsSet (b.cap - b.off) ((key, val) :: before) := by
            constructor
            · rintro ⟨before, arg, after, split, unknown, packed⟩
              cases before with
              | nil =>
                  obtain ⟨rfl, -⟩ := List.cons.inj split
                  cases known.symm.trans unknown
              | cons first before =>
                  obtain ⟨rfl, rest⟩ := List.cons.inj split
                  exact ⟨before, arg, after, rest, unknown, packed⟩
            · rintro ⟨before, arg, after, rfl, unknown, packed⟩
              exact ⟨(key, val) :: before, arg, after, rfl, unknown, packed⟩
          rw [later]
          dsimp only
          rcases packValue_eq b attrId.toUInt16 val with ⟨e, packed, full⟩ | ⟨b', packed, appended⟩
          · rw [packed]
            have tooLong := abAttr_eq_none.mp full
            apply iff_of_false (by simp)
            rintro ⟨before, arg, after, -, -, notRefused⟩
            refine notRefused (.inr ?_)
            rw [List.map_cons, List.sum_cons]
            dsimp only
            omega
          · have room : ¬b.cap < b.off + align4 (4 + (argPayload val).length) := fun tooLong => by
              rw [abAttr_eq_none.mpr tooLong] at appended
              cases appended
            obtain ⟨cap, holds'⟩ := abAttr_holds holds appended
            have off : b'.off = b.off + align4 (4 + (argPayload val).length) := by
              rw [holds'.off, List.length_append, Framing.length_padded, length_attr, holds.off]
            have refused (before : InvokeArgs) :
                Refused attrsSet (b.cap - b.off) ((key, val) :: before) ↔
                  Refused attrsSet (b'.cap - b'.off) before := by
              rw [refused_cons (by simp [known]) (by dsimp only; omega), cap, off]
              dsimp only
              rw [Nat.sub_add_eq]
            simp only [packed, refused]
            exact ih holds' (by omega)

/-- The generic invocation tells of arguments without a set, and of keys that are unknown. -/
theorem genericRequest_text_iff (op : Operation) (family : Family) (args : InvokeArgs)
    (seq : UInt32) :
    (∃ text, genericRequest op family args seq = .text text) ↔
      (args ≠ [] ∧ genericAttrSet op family = none) ∨
        ∃ attrsSet, genericAttrSet op family = some attrsSet ∧
          ∃ before arg after, args = before ++ arg :: after ∧
            attrSetLookupId attrsSet arg.1 = none ∧ ¬Refused attrsSet 1004 before := by
  obtain ⟨cmd, version, holds⟩ := requestBuf_holds op family args.isEmpty seq 1024
  cases args with
  | nil => simp [genericRequest]
  | cons arg args =>
      rw [genericRequest, if_neg (by simp)]
      cases found : genericAttrSet op family with
      | none => simp
      | some attrsSet =>
          have packed := packArgs_text_iff op family attrsSet holds (show 20 ≤ 1024 by decide)
            (arg :: args)
          simp only [reduceCtorEq, and_false, false_or, Option.some.injEq, exists_eq_left']
          exact packed

/-- The ethtool invocation tells of an index that is malformed. -/
theorem ethtoolRequest_text_iff (op : Operation) (family : Family) (schema : EthtoolSchema)
    (args : InvokeArgs) (seq : UInt32) :
    (∃ text, ethtoolRequest op family schema args seq = .text text) ↔
      argsLookup args (lit "ifname") = none ∧ ∃ ifindex,
        argsLookup args (lit "ifindex") = some ifindex ∧
          ((strtoul ifindex).rest ≠ [] ∨ 2 ^ 32 - 1 < (strtoul ifindex).value) := by
  obtain ⟨cmd, version, request⟩ := ethtoolRequest_eq op family schema args seq
  rw [request]
  cases argsLookup args (lit "ifname") with
  | some ifname =>
      simp only [reduceCtorEq, false_and, iff_false]
      split <;> simp
  | none =>
      cases argsLookup args (lit "ifindex") with
      | none => simp
      | some ifindex =>
          simp only [true_and, Option.some.injEq, exists_eq_left']
          by_cases malformed : (strtoul ifindex).rest ≠ [] ∨
              2 ^ 32 - 1 < (strtoul ifindex).value
          · rw [if_pos malformed]
            exact iff_of_true ⟨_, rfl⟩ malformed
          · rw [if_neg malformed]
            exact iff_of_false (by simp) malformed

/-- The lookups of the ethtool invocation end with a text in three ways. -/
theorem ethtoolSchema_text_iff (op : Operation) (family : Family) :
    (∃ text, ethtoolSchema op family = .error (.ok text)) ↔
      ∃ overlay, family.overlay = some overlay ∧
        (stripOpSuffix op.overlayName 64 = none ∨
          ∃ setName, stripOpSuffix op.overlayName 64 = some setName ∧
            (findAttrSet (some overlay) setName = none ∨
              ∃ responseSet headerSet, findAttrSet (some overlay) setName = some responseSet ∧
                findAttrSet (some overlay) (lit "HEADER") = some headerSet ∧
                attrSetLookupId responseSet (lit "HEADER") = none)) := by
  unfold ethtoolSchema
  cases family.overlay with
  | none => simp
  | some overlay =>
      simp only [Option.some.injEq, exists_eq_left']
      cases stripOpSuffix op.overlayName 64 with
      | none => simp
      | some setName =>
          simp only [reduceCtorEq, false_or, Option.some.injEq, exists_eq_left']
          cases findAttrSet (some overlay) setName with
          | none => simp
          | some responseSet =>
              simp only [reduceCtorEq, false_or, Option.some.injEq]
              cases findAttrSet (some overlay) (lit "HEADER") with
              | none => simp
              | some headerSet =>
                  cases header : attrSetLookupId responseSet (lit "HEADER") with
                  | none => simp [header]
                  | some hdrAttrId =>
                      refine iff_of_false ?_ (by simp [header])
                      rintro ⟨text, ended⟩
                      dsimp only at ended
                      split at ended <;> cases ended

/-- The generic invocation of a node is told of as its request is. -/
theorem told_generic_iff {op : Operation} {family : Family} (t : Transport)
    (args : InvokeArgs) (generic : isEthtoolGet op family = false) :
    Told (.genl op family t) args ↔
      (args ≠ [] ∧ genericAttrSet op family = none) ∨
        ∃ attrsSet, genericAttrSet op family = some attrsSet ∧
          ∃ before arg after, args = before ++ arg :: after ∧
            attrSetLookupId attrsSet arg.1 = none ∧ ¬Refused attrsSet 1004 before := by
  constructor
  · intro told
    cases told with
    | noAttrs _ given missing => exact .inl ⟨given, missing⟩
    | unknownKey _ found unknown packed => exact .inr ⟨_, found, _, _, _, rfl, unknown, packed⟩
    | noSetName ethtool => simp [generic] at ethtool
    | noSet ethtool => simp [generic] at ethtool
    | noHeader ethtool => simp [generic] at ethtool
    | malformedIndex ethtool => simp [generic] at ethtool
  · rintro (⟨given, missing⟩ | ⟨attrsSet, found, before, arg, after, rfl, unknown, packed⟩)
    · exact .noAttrs generic given missing
    · exact .unknownKey generic found unknown packed

/-- The ethtool invocation of a node is told of when its lookups are, or when they succeed and
the request is. -/
theorem told_ethtool_iff {op : Operation} {family : Family} (t : Transport)
    (args : InvokeArgs) (ethtool : isEthtoolGet op family = true) :
    Told (.genl op family t) args ↔
      (∃ text, ethtoolSchema op family = .error (.ok text)) ∨
        ∃ schema, ethtoolSchema op family = .ok schema ∧
          argsLookup args (lit "ifname") = none ∧ ∃ ifindex,
            argsLookup args (lit "ifindex") = some ifindex ∧
              ((strtoul ifindex).rest ≠ [] ∨ 2 ^ 32 - 1 < (strtoul ifindex).value) := by
  rw [ethtoolSchema_text_iff]
  constructor
  · intro told
    cases told with
    | noAttrs generic => simp [ethtool] at generic
    | unknownKey generic => simp [ethtool] at generic
    | noSetName _ loaded noName => exact .inl ⟨_, loaded, .inl noName⟩
    | noSet _ loaded named missing => exact .inl ⟨_, loaded, .inr ⟨_, named, .inl missing⟩⟩
    | noHeader _ loaded named found headers missing =>
        exact .inl ⟨_, loaded, .inr ⟨_, named, .inr ⟨_, _, found, headers, missing⟩⟩⟩
    | malformedIndex _ found unnamed given malformed =>
        exact .inr ⟨_, found, unnamed, _, given, malformed⟩
  · rintro (⟨overlay, loaded, noName | ⟨setName, named, missing |
      ⟨responseSet, headerSet, found, headers, missing⟩⟩⟩ |
      ⟨schema, found, unnamed, ifindex, given, malformed⟩)
    · exact .noSetName ethtool loaded noName
    · exact .noSet ethtool loaded named missing
    · exact .noHeader ethtool loaded named found headers missing
    · exact .malformedIndex ethtool found unnamed given malformed

/-- **An attempt ends with a text in these cases only.** -/
theorem attempt_text_iff (node : OpNode) (args : InvokeArgs) :
    (∃ text, node.attempt args = .text text) ↔ Told node args := by
  cases node with
  | rtnl op ns =>
      refine iff_of_false ?_ nofun
      rintro ⟨text, sent⟩
      cases sent
  | genl op family t =>
      rw [OpNode.attempt]
      cases isGet : isEthtoolGet op family with
      | false =>
          rw [if_neg Bool.false_ne_true, genericRequest_text_iff, told_generic_iff t args isGet]
      | true =>
          rw [if_pos rfl, told_ethtool_iff t args isGet]
          cases ethtoolSchema op family with
          | ok schema =>
              dsimp only
              rw [ethtoolRequest_text_iff]
              simp
          | error answer => cases answer <;> simp

/-! ## Loops that end at a message -/

/-- **A loop that ends at a message answers with a text**, whatever the message says. -/
theorem InvocationLoop.endsAt (loop : InvocationLoop) (strerror : Int → CStr) :
    EndsAt (loop.body strerror) loop.ends HasCode fun r => ∃ text, r.2 = .ok text := by
  -- What the body looks at is in the message.
  have looks {buf : Mem} {a : Nat} (covers : 16 ≤ nlmsg.declaredAt buf a)
      (hasCode : HasCode (nlmsg.recordAt buf a)) :
      buf.load16 (a + 4) = msgType (nlmsg.recordAt buf a) ∧
        (msgType (nlmsg.recordAt buf a) = nlmsgError →
          buf.load32 (a + 16) = msgError (nlmsg.recordAt buf a)) := by
    refine ⟨(msgType_recordAt covers).symm, ?_⟩
    intro error
    have long := hasCode error
    rw [Framing.recordAt, Mem.length_slice] at long
    exact (field32_slice buf a _ long).symm
  constructor
  · intro buf l a covers _ hasCode goesOn
    obtain ⟨type, code⟩ := looks covers hasCode
    simp only [InvocationLoop.ends, invokeEnds, Bool.or_eq_false_iff] at goesOn
    obtain ⟨⟨notDone, noError⟩, noReply⟩ := goesOn
    rw [InvocationLoop.body_eq, type, if_neg (by simpa using notDone)]
    by_cases error : msgType (nlmsg.recordAt buf a) = nlmsgError
    · have zero : msgError (nlmsg.recordAt buf a) = 0 := by simpa [error] using noError
      rw [if_pos error, code error, if_pos zero]
      exact ⟨l, rfl⟩
    · have dump : loop.dumpMode = true := by
        simpa [isReply_iff.mpr ⟨by simpa using notDone, error⟩] using noReply
      rw [if_neg error, replyRendered, InvocationLoop.dumpMode_format, dump, if_pos rfl]
      exact ⟨_, rfl⟩
  · intro buf l a covers _ hasCode isEnd
    obtain ⟨type, code⟩ := looks covers hasCode
    rw [InvocationLoop.body_eq, type]
    by_cases done : msgType (nlmsg.recordAt buf a) = nlmsgDone
    · rw [if_pos done]
      exact .inl ⟨l, rfl⟩
    rw [if_neg done]
    by_cases error : msgType (nlmsg.recordAt buf a) = nlmsgError
    · have nonzero : msgError (nlmsg.recordAt buf a) ≠ 0 := by
        simpa [InvocationLoop.ends, invokeEnds, isReply, error, nlmsgError, nlmsgDone] using isEnd
      rw [if_pos error, code error, if_neg nonzero]
      exact .inr ⟨_, rfl, _, rfl⟩
    · have single : loop.dumpMode = false := by
        simpa [InvocationLoop.ends, invokeEnds, isReply_iff.mpr ⟨done, error⟩, done, error]
          using isEnd
      rw [if_neg error, replyRendered, InvocationLoop.dumpMode_format, single,
        if_neg Bool.false_ne_true]
      exact .inl ⟨_, rfl⟩

/-! ## Results -/

/-- The result is not an error. -/
def IsOk (answer : Answer) : Prop := ∃ text, answer = .text (.ok text)

/-- A failure of the kernel: an error, or the end of a dump with a negative status. -/
def Failure (dump : Bool) (m : Bytes) : Prop :=
  kernelFails m = true ∨ dump = true ∧ msgType m = nlmsgDone ∧ toInt (field32 m 16).toNat < 0

instance (dump : Bool) (m : Bytes) : Decidable (Failure dump m) :=
  inferInstanceAs (Decidable (_ ∨ _))

namespace OpNode

/-- What earlier requests have left is received first. -/
def leftovers (node : OpNode) (env : RtnlEnv) : List Bytes :=
  queued (received env.recvFails node.queue)

/-- The kernel's answer to a request, as far as it is received. -/
def answered (node : OpNode) (env : RtnlEnv) (m : Bytes) : List Bytes :=
  queued ((received env.recvFails (node.stream env m)).drop node.queue.length)

/-- The message completes the reply. -/
def Completes (node : OpNode) (args : InvokeArgs) (m : Bytes) : Bool :=
  invokeEnds (node.dumpMode args) m

/-- The request was sent, and the kernel's answer to it was completed without a failure. -/
def Succeeds (node : OpNode) (args : InvokeArgs) (env : RtnlEnv) : Prop :=
  ∃ m, node.attempt args = .send m ∧ node.Reaches env ∧
    ∃ last, (node.answered env m).find? (node.Completes args) = some last ∧
      ¬Failure (node.dumpMode args) last

/-- When the result tells whether the invocation succeeded. -/
structure Tells (node : OpNode) (args : InvokeArgs) (env : RtnlEnv) : Prop where
  /-- The request is not refused with a text. -/
  accepted : ¬Told node args
  /-- No call fails for a route operation: neither the socket or the send, nor `recv`
  before the reply is complete. -/
  calls : node.isRtnl = true → node.Reaches env ∧ ∀ m, node.attempt args = .send m →
    ∀ n, env.recvFails = some n → n ≤ (node.stream env m).length →
      (node.leftovers env ++ node.answered env m).any (node.Completes args) = true
  /-- The answer is not completed by a failure. -/
  unfailing : ∀ m, node.attempt args = .send m → node.Reaches env → ∀ last,
    (node.answered env m).find? (node.Completes args) = some last →
      ¬Failure (node.dumpMode args) last
  /-- Nothing that was left completes the reply, unless the answer does so too. -/
  own : ∀ m, node.attempt args = .send m → node.Reaches env →
    (node.leftovers env).any (node.Completes args) = true →
      (node.answered env m).any (node.Completes args) = true

/-- What is received is what was left, and then the answer. -/
theorem queued_received (node : OpNode) (env : RtnlEnv) (m : Bytes) :
    queued (received env.recvFails (node.stream env m)) =
      node.leftovers env ++ node.answered env m := by
  have first : (received env.recvFails (node.stream env m)).take node.queue.length =
      received env.recvFails node.queue := by
    rw [stream]
    cases env.recvFails with
    | none => exact List.take_left
    | some n => rw [received, List.take_take, Nat.min_comm, ← List.take_take, List.take_left,
        received]
  have split := List.take_append_drop node.queue.length
    (received env.recvFails (node.stream env m))
  rw [first] at split
  rw [← split, queued, List.flatMap_append, leftovers, answered, queued, queued]

/-- What a request that reaches the kernel is answered with. -/
theorem isOk_sent {node : OpNode} {args : InvokeArgs} {env : RtnlEnv} {m : Bytes}
    (sent : node.attempt args = .send m) (reaches : node.Reaches env)
    (hasCode : ∀ r ∈ queued (node.stream env m), HasCode r) :
    IsOk (node.invoke args env) ↔
      (node.leftovers env ++ node.answered env m).any (node.Completes args) = true ∨
        node.isRtnl = true ∧ ∃ n, env.recvFails = some n ∧ n ≤ (node.stream env m).length := by
  obtain ⟨loop, dump, fails, answered⟩ := invoke_sent sent reaches
  have ends : loop.ends = node.Completes args := by
    funext r
    rw [InvocationLoop.ends, Completes, dump]
  have length : (arrivalsIn env.buf (node.stream env m)).length = (node.stream env m).length := by
    rw [← List.length_map (f := Arrival.datagram), datagrams_arrivalsIn]
  have allGood : ∀ r ∈ queued (received env.recvFails
      ((arrivalsIn env.buf (node.stream env m)).map Arrival.datagram)), HasCode r := by
    rw [datagrams_arrivalsIn]
    intro r member
    obtain ⟨d, isReceived, within⟩ := List.mem_flatMap.mp member
    exact hasCode r (List.mem_flatMap.mpr ⟨d, (received_sublist _ _).subset isReceived, within⟩)
  obtain ⟨ended, failed⟩ := (loop.endsAt env.strerror).receiveArrivals
    (fun l => (l, loop.recvFailed env)) allGood ⟨loop.header, 0, []⟩
  rw [datagrams_arrivalsIn, queued_received, ends] at ended failed
  rw [answered, InvocationLoop.answer, InvocationLoop.receive]
  cases isOver : (node.leftovers env ++ node.answered env m).any (node.Completes args) with
  | true =>
      refine iff_of_true ?_ (.inl rfl)
      rcases ended isOver with ⟨l, left, stopped⟩ | ⟨r, left, returned, text, isText⟩
      · rw [stopped]
        exact ⟨_, rfl⟩
      · rw [returned]
        exact ⟨text, congrArg Answer.text isText⟩
  | false =>
      rw [or_iff_right Bool.false_ne_true]
      obtain ⟨returns, waits⟩ := failed isOver
      by_cases cut : ∃ n, env.recvFails = some n ∧ n ≤ (node.stream env m).length
      · obtain ⟨l, left, returned⟩ := returns (by rw [length]; exact cut)
        rw [returned, fails, and_iff_left cut]
        constructor
        · rintro ⟨text, same⟩
          exact ⟨text, Answer.text.inj same⟩
        · rintro ⟨text, same⟩
          exact ⟨text, congrArg Answer.text same⟩
      · obtain ⟨l, waiting⟩ := waits (by
          intro n cutAt
          rw [length]
          exact Nat.lt_of_not_le fun within => cut ⟨n, cutAt, within⟩)
        rw [waiting]
        refine iff_of_false ?_ fun both => cut both.2
        rintro ⟨text, same⟩
        cases same

/-- There is one request. -/
theorem only_request {node : OpNode} {args : InvokeArgs} {m m' : Bytes}
    (sent : node.attempt args = .send m) (sent' : node.attempt args = .send m') : m' = m :=
  Attempt.send.inj (sent'.symm.trans sent)

/-- What is not a text was not refused with one. -/
theorem not_told {node : OpNode} {args : InvokeArgs}
    (noText : ∀ text, node.attempt args ≠ .text text) : ¬Told node args := by
  intro told
  obtain ⟨text, isText⟩ := (attempt_text_iff node args).mpr told
  exact noText text isText

@[inherit_doc not_told]
theorem not_told_of_sent {node : OpNode} {args : InvokeArgs} {m : Bytes}
    (sent : node.attempt args = .send m) : ¬Told node args :=
  not_told fun text isText => by cases sent.symm.trans isText

/-- When no request is sent, the result tells so unless it is a text. -/
theorem tells_rejected {node : OpNode} {args : InvokeArgs} (env : RtnlEnv)
    (unsent : ∀ m, node.attempt args ≠ .send m) :
    (IsOk (node.invoke args env) ↔ node.Succeeds args env) ↔ node.Tells args env := by
  have failed : ¬node.Succeeds args env := by
    rintro ⟨m, sent, -⟩
    exact unsent m sent
  rw [iff_false_right failed]
  cases attempted : node.attempt args with
  | send m => exact absurd attempted (unsent m)
  | text text =>
      refine iff_of_false (not_not.mpr ⟨text, (invoke_rejected env).1 text attempted⟩) ?_
      intro tells
      exact tells.accepted ((attempt_text_iff node args).mp ⟨text, attempted⟩)
  | error e =>
      refine iff_of_true ?_ ⟨not_told fun text isText => ?_, ?_, ?_, ?_⟩
      · rintro ⟨text, ok⟩
        rw [(invoke_rejected env).2 e attempted] at ok
        cases ok
      · cases attempted.symm.trans isText
      · intro route
        cases node with
        | genl op family t => cases route
        | rtnl op ns => cases attempted
      · intro m sent
        exact absurd sent (unsent m)
      · intro m sent
        exact absurd sent (unsent m)

/-- When a request does not reach the kernel, the result tells so but for route operations. -/
theorem tells_unsent {node : OpNode} {args : InvokeArgs} {env : RtnlEnv} {m : Bytes}
    (sent : node.attempt args = .send m) (fails : ¬node.Reaches env) :
    (IsOk (node.invoke args env) ↔ node.Succeeds args env) ↔ node.Tells args env := by
  obtain ⟨answer, answered, textual⟩ := invoke_unsent sent fails
  have failed : ¬node.Succeeds args env := by
    rintro ⟨-, -, reaches, -⟩
    exact fails reaches
  rw [iff_false_right failed]
  constructor
  · intro notOk
    refine ⟨not_told_of_sent sent, ?_, ?_, ?_⟩
    · intro route
      obtain ⟨text, isText⟩ := textual.mp route
      exact absurd ⟨text, answered.trans (congrArg Answer.text isText)⟩ notOk
    · intro m' _ reaches
      exact absurd reaches fails
    · intro m' _ reaches
      exact absurd reaches fails
  · rintro tells ⟨text, ok⟩
    rw [answered] at ok
    exact fails (tells.calls (textual.mpr ⟨text, Answer.text.inj ok⟩)).1

/-- When the answer is complete, the result tells whether this is by a failure. -/
theorem tells_complete {node : OpNode} {args : InvokeArgs} {env : RtnlEnv} {m last : Bytes}
    (sent : node.attempt args = .send m) (reaches : node.Reaches env)
    (hasCode : ∀ r ∈ queued (node.stream env m), HasCode r)
    (found : (node.answered env m).find? (node.Completes args) = some last) :
    (IsOk (node.invoke args env) ↔ node.Succeeds args env) ↔ node.Tells args env := by
  have complete : (node.answered env m).any (node.Completes args) = true :=
    List.any_eq_true.mpr ⟨last, List.mem_of_find?_eq_some found, List.find?_some found⟩
  have all : (node.leftovers env ++ node.answered env m).any (node.Completes args) = true := by
    rw [List.any_append, complete, Bool.or_true]
  rw [iff_true_left ((isOk_sent sent reaches hasCode).mpr (.inl all))]
  constructor
  · rintro ⟨m', sent', -, last', found', good⟩
    obtain rfl := only_request sent sent'
    obtain rfl := Option.some.inj (found.symm.trans found')
    refine ⟨not_told_of_sent sent,
      fun _ => ⟨reaches, ?_⟩, ?_, ?_⟩
    · intro m'' sent'' _ _ _
      rw [only_request sent sent'']
      exact all
    · intro m'' sent'' _ last'' found''
      rw [only_request sent sent''] at found''
      rwa [← Option.some.inj (found.symm.trans found'')]
    · intro m'' sent'' _ _
      rw [only_request sent sent'']
      exact complete
  · intro tells
    exact ⟨m, sent, reaches, last, found, tells.unfailing m sent reaches last found⟩

/-- When the answer is not complete, the result should be an error. -/
theorem tells_incomplete {node : OpNode} {args : InvokeArgs} {env : RtnlEnv} {m : Bytes}
    (sent : node.attempt args = .send m) (reaches : node.Reaches env)
    (hasCode : ∀ r ∈ queued (node.stream env m), HasCode r)
    (found : (node.answered env m).find? (node.Completes args) = none) :
    (IsOk (node.invoke args env) ↔ node.Succeeds args env) ↔ node.Tells args env := by
  have incomplete : (node.answered env m).any (node.Completes args) = false :=
    List.any_eq_false.mpr (List.find?_eq_none.mp found)
  have failed : ¬node.Succeeds args env := by
    rintro ⟨m', sent', -, last, found', -⟩
    rw [only_request sent sent', found] at found'
    cases found'
  have ok := isOk_sent sent reaches hasCode
  rw [List.any_append, incomplete, Bool.or_false] at ok
  rw [iff_false_right failed, ok]
  constructor
  · intro notOk
    obtain ⟨noLeftover, noCut⟩ := not_or.mp notOk
    refine ⟨not_told_of_sent sent,
      fun route => ⟨reaches, ?_⟩, ?_, ?_⟩
    · intro m' sent' n cut within
      rw [only_request sent sent'] at within
      exact absurd ⟨route, n, cut, within⟩ noCut
    · intro m' sent' _ last found'
      rw [only_request sent sent', found] at found'
      cases found'
    · intro m' _ _ completes
      exact absurd completes noLeftover
  · rintro tells (completes | ⟨route, n, cut, within⟩)
    · cases incomplete.symm.trans (tells.own m sent reaches completes)
    · have complete := (tells.calls route).2 m sent n cut within
      rw [List.any_append, incomplete, Bool.or_false] at complete
      cases incomplete.symm.trans (tells.own m sent reaches complete)

end OpNode

/-- **The result tells whether an invocation succeeded exactly when** the request is not
refused with a text, no call fails for a route operation, the kernel's answer is not completed
by a failure, and nothing that earlier requests have left completes the reply instead. -/
theorem isOk_iff_succeeds_iff (node : OpNode) (args : InvokeArgs) (env : RtnlEnv)
    (hasCode : ∀ m, node.attempt args = .send m → ∀ r ∈ queued (node.stream env m), HasCode r) :
    (IsOk (node.invoke args env) ↔ node.Succeeds args env) ↔ node.Tells args env := by
  by_cases requested : ∃ m, node.attempt args = .send m
  · obtain ⟨m, sent⟩ := requested
    by_cases reaches : node.Reaches env
    · cases found : (node.answered env m).find? (node.Completes args) with
      | some last => exact OpNode.tells_complete sent reaches (hasCode m sent) found
      | none => exact OpNode.tells_incomplete sent reaches (hasCode m sent) found
    · exact OpNode.tells_unsent sent reaches
  · exact OpNode.tells_rejected env fun m sent => requested ⟨m, sent⟩

/-- The operation that asks nl80211 for its stations, on a new socket. -/
def stationNode : OpNode :=
  .genl ⟨17, 14, some (lit "GET_STATION"), none, none⟩
    ⟨lit "nl80211", 30, 1, 0, 0, [], [], none⟩ Transport.create

/-- The kernel does not permit the operation. -/
def notPermitted : Bytes := msg nlmsgError 0 1 (bytes32 (UInt32.ofNat (2 ^ 32 - 1)))

/-- What the operation meets when this is the answer. -/
def refusingEnv : RtnlEnv :=
  { socketFault := none, sendFails := false, bufferFails := false, recvFails := none,
    answer := fun _ => [⟨notPermitted, by decide⟩], buf := fun _ => 0, strerror := fun _ => [],
    errno := 0 }

/-- What is received is this answer. -/
theorem queued_notPermitted (m : Bytes) :
    queued (stationNode.stream refusingEnv m) = [notPermitted] := by
  have isFrame : nlmsg.IsFrame notPermitted := msg_isFrame (by decide)
  have alone := Framing.frames_last isFrame (show ([] : Bytes).length ≤ _ from Nat.zero_le _)
  rw [List.append_nil] at alone
  show nlmsg.frames notPermitted ++ [] = _
  rw [alone, List.append_nil]

/-- The error has its code. -/
theorem hasCode_notPermitted (m : Bytes) :
    ∀ r ∈ queued (stationNode.stream refusingEnv m), HasCode r := by
  rw [queued_notPermitted]
  intro r member
  rw [List.mem_singleton.mp member]
  decide

/-- The result tells of a refused operation only if it tells of the refusal. -/
theorem isOk_notPermitted :
    (IsOk (stationNode.invoke [] refusingEnv) ↔ stationNode.Succeeds [] refusingEnv) ↔
      stationNode.Tells [] refusingEnv :=
  isOk_iff_succeeds_iff stationNode [] refusingEnv fun m _ => hasCode_notPermitted m

/-- The result of an operation that the kernel does not permit is not an error. -/
theorem notPermitted_isOk :
    IsOk (stationNode.invoke [] refusingEnv) ∧ ¬stationNode.Succeeds [] refusingEnv := by
  have answered (m : Bytes) : stationNode.answered refusingEnv m = [notPermitted] :=
    queued_notPermitted m
  obtain ⟨m, sent⟩ : ∃ m, stationNode.attempt [] = .send m := ⟨_, rfl⟩
  constructor
  · rw [OpNode.isOk_sent sent ⟨.inr rfl, rfl⟩ (hasCode_notPermitted m), answered]
    refine .inl ?_
    decide
  · rintro ⟨m', -, -, last, found, good⟩
    rw [answered] at found
    obtain rfl := List.mem_singleton.mp (List.mem_of_find?_eq_some found)
    exact good (by decide)

end Ykern.Invocation
