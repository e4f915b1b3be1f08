import Ykern.Invocation.Loops

/-!
# Invoking operation nodes

An operation node is one of a generic netlink family, on the transport it shares with the
others, or one of the route namespace. Invoking it makes a request of the arguments or
answers without one, sends the request if the socket allows, and enters a receive loop
(`OpNode.invoke_sent`, `OpNode.invoke_unsent`, `OpNode.invoke_rejected`).
-/

set_option autoImplicit false

namespace Ykern.Invocation

open Genl Rtnl Netlink Overlay

/-- An operation node, with the state of its socket. -/
inductive OpNode where
  | genl (op : Operation) (family : Family) (t : Transport)
  | rtnl (op : RtnlOp) (ns : RtnlNamespace)

namespace OpNode

/-- `ykern_ycore_object_invoke` on an operation node. -/
def invoke (node : OpNode) (args : InvokeArgs) (env : RtnlEnv) : Answer :=
  match node with
  | .genl op family t => (opInvoke op family args t env.toEnv).answer
  | .rtnl op ns => (rtnlOpInvoke op args ns env).answer

/-- The request for a list of arguments, or what is answered without one. -/
def attempt (node : OpNode) (args : InvokeArgs) : Attempt :=
  match node with
  | .genl op family t =>
      if isEthtoolGet op family then
        match ethtoolSchema op family with
        | .error (.ok text) => .text text
        | .error (.error e) => .error e
        | .ok schema => ethtoolRequest op family schema args (t.seq + 1)
      else genericRequest op family args (t.seq + 1)
  | .rtnl op ns => .send (rtnlRequest op (ns.seq + 1))

/-- The loop an operation enters behind its request, when the overlay has what this needs. -/
def loop (node : OpNode) (args : InvokeArgs) : Option InvocationLoop :=
  match node with
  | .genl op family _ =>
      if isEthtoolGet op family then
        match ethtoolSchema op family with
        | .error _ => none
        | .ok schema => some (.ethtoolGet op family schema args)
      else some (.genericGenl op family args)
  | .rtnl op _ => some (.rtnl op)

/-- The request asks for a dump. -/
def dumpMode (node : OpNode) (args : InvokeArgs) : Bool :=
  match node with
  | .genl op family _ => if isEthtoolGet op family then ethtoolDumpMode args else args.isEmpty
  | .rtnl _ _ => true

/-- The socket is open. -/
def isOpen : OpNode → Bool
  | .genl _ _ t => t.isOpen
  | .rtnl _ ns => ns.isOpen

/-- The datagrams that are queued on the socket. -/
def queue : OpNode → List Datagram
  | .genl _ _ t => t.queue
  | .rtnl _ ns => ns.queue

/-- It is an operation of the route namespace. -/
def isRtnl : OpNode → Bool
  | .genl _ _ _ => false
  | .rtnl _ _ => true

/-- The socket lets the request through. -/
def Reaches (node : OpNode) (env : RtnlEnv) : Prop :=
  (node.isOpen = true ∨ env.socketFault = none) ∧ env.sendFails = false

/-- What is received after a request. -/
def stream (node : OpNode) (env : RtnlEnv) (m : Bytes) : List Datagram :=
  node.queue ++ env.answer m

end OpNode

/-! ## Exchanges -/

/-- A loop of a generic netlink invocation, with the texts of this. -/
structure InvocationLoop.Speaks (loop : InvocationLoop) (texts : InvokeTexts) : Prop where
  body : ∀ strerror, loop.body strerror = invokeBody (loop.format strerror)
  nouns : loop.nouns = (texts.one, texts.many)
  recvFailed : ∀ env, loop.recvFailed env = .error [texts.recvFailed]

/-- After its request was sent, an invocation answers what its loop does. -/
theorem exchange_sent {loop : InvocationLoop} {texts : InvokeTexts} (speaks : loop.Speaks texts)
    {t : Transport} {env : RtnlEnv} (opens : t.isOpen = true ∨ env.socketFault = none)
    (sends : env.sendFails = false) (m : Bytes) :
    (exchange texts (loop.format env.strerror) loop.header (.send m) t env.toEnv).answer =
      loop.answer env (arrivalsIn env.buf (t.queue ++ env.answer m)) := by
  rcases socketGet_eq t env.socketFault with ⟨closed, -⟩ | ⟨-, got⟩
  · exact absurd opens closed
  rw [exchange, got]
  dsimp only
  rw [if_neg (by simp [sends]), invokeLoop, ← speaks.body, ← speaks.recvFailed env,
    receiveLoop_eq_arrivals, InvocationLoop.answer, InvocationLoop.receive]
  cases receiveArrivals (loop.body env.strerror) (fun l => (l, loop.recvFailed env))
      (arrivalsIn env.buf (t.queue ++ env.answer m)) env.recvFails ⟨loop.header, 0, []⟩ with
  | stopped l left =>
      simp only [invokeOutcome, InvocationLoop.finish, speaks.nouns, invokeText,
        InvocationLoop.dumpMode_format]
  | returned r left => rfl
  | waiting l => rfl

/-- A request that does not reach the kernel is answered with an error. -/
theorem exchange_unsent (texts : InvokeTexts) (format : ReplyFormat) (header : Bytes)
    {t : Transport} {env : Env}
    (fails : ¬((t.isOpen = true ∨ env.socketFault = none) ∧ env.sendFails = false)) (m : Bytes) :
    ∃ e, (exchange texts format header (.send m) t env).answer = .text (.error e) := by
  rw [exchange]
  rcases socketGet_eq t env.socketFault with ⟨-, e, got⟩ | ⟨opens, got⟩
  · rw [got]
    exact ⟨_, rfl⟩
  · have sendFails : env.sendFails = true := by
      rw [← Bool.not_eq_false]
      exact fun sends => fails ⟨opens, sends⟩
    rw [got]
    dsimp only
    rw [if_pos sendFails]
    exact ⟨_, rfl⟩

namespace OpNode

/-- An invocation of a generic netlink operation is an exchange with one of the two loops,
or it is answered before that. -/
theorem invoke_genl (op : Operation) (family : Family) (t : Transport) (args : InvokeArgs)
    (env : RtnlEnv) :
    (∃ answer, (OpNode.genl op family t).invoke args env = .text answer ∧
        (OpNode.genl op family t).attempt args =
          match answer with
          | .ok text => .text text
          | .error e => .error e) ∨
      ∃ (loop : InvocationLoop) (texts : InvokeTexts), loop.Speaks texts ∧
        (OpNode.genl op family t).loop args = some loop ∧
        (OpNode.genl op family t).invoke args env =
          (exchange texts (loop.format env.strerror) loop.header
            ((OpNode.genl op family t).attempt args) { t with seq := t.seq + 1 } env.toEnv).answer := by
  rw [attempt, invoke, opInvoke, OpNode.loop]
  cases isGet : isEthtoolGet op family with
  | false =>
      rw [if_neg Bool.false_ne_true, if_neg Bool.false_ne_true, if_neg Bool.false_ne_true]
      exact .inr ⟨.genericGenl op family args, genericTexts, ⟨fun _ => rfl, rfl, fun _ => rfl⟩,
        rfl, rfl⟩
  | true =>
      rw [if_pos rfl, if_pos rfl, if_pos rfl, invokeEthtoolGet]
      cases ethtoolSchema op family with
      | error answer =>
          refine .inl ⟨answer, rfl, ?_⟩
          cases answer <;> rfl
      | ok schema =>
          exact .inr ⟨.ethtoolGet op family schema args, ethtoolTexts,
            ⟨fun _ => rfl, rfl, fun _ => rfl⟩, rfl, rfl⟩

/-- Without a request the answer is that of the attempt. -/
theorem invoke_rejected {node : OpNode} {args : InvokeArgs} (env : RtnlEnv) :
    (∀ text, node.attempt args = .text text → node.invoke args env = .text (.ok text)) ∧
      ∀ e, node.attempt args = .error e → node.invoke args env = .text (.error e) := by
  cases node with
  | rtnl op ns => exact ⟨nofun, nofun⟩
  | genl op family t =>
      rcases invoke_genl op family t args env with
        ⟨answer, answered, attempted⟩ | ⟨loop, texts, -, -, exchanged⟩
      · rw [answered, attempted]
        cases answer with
        | ok text => exact ⟨fun _ same => by rw [Attempt.text.inj same], nofun⟩
        | error e => exact ⟨nofun, fun _ same => by rw [Attempt.error.inj same]⟩
      · rw [exchanged]
        refine ⟨?_, ?_⟩
        · intro text rejected
          rw [rejected, exchange]
        · intro e rejected
          rw [rejected, exchange]

/-- The namespace opens its socket, or the operation tells that it cannot. -/
theorem rtnlSocketGet_eq (ns : RtnlNamespace) (env : RtnlEnv) :
    (¬(ns.isOpen = true ∨ env.socketFault = none) ∧ rtnlSocketGet ns env = .error env.errno) ∨
      ((ns.isOpen = true ∨ env.socketFault = none) ∧
        rtnlSocketGet ns env = .ok { ns with isOpen := true }) := by
  obtain ⟨isOpen, seq, queue⟩ := ns
  rw [rtnlSocketGet]
  cases isOpen with
  | true => exact .inr ⟨.inl rfl, rfl⟩
  | false =>
      cases env.socketFault with
      | none => exact .inr ⟨.inr rfl, rfl⟩
      | some f => exact .inl ⟨by simp, rfl⟩

/-- **A request that does not reach the kernel** is answered with an error, and by an
operation of the route namespace with a text. -/
theorem invoke_unsent {node : OpNode} {args : InvokeArgs} {env : RtnlEnv} {m : Bytes}
    (sent : node.attempt args = .send m) (fails : ¬node.Reaches env) :
    ∃ answer, node.invoke args env = .text answer ∧
      (node.isRtnl = true ↔ ∃ text, answer = .ok text) := by
  cases node with
  | genl op family t =>
      rcases invoke_genl op family t args env with
        ⟨answer, -, attempted⟩ | ⟨loop, texts, -, -, exchanged⟩
      · rw [attempted] at sent
        cases answer <;> cases sent
      · rw [exchanged, sent]
        obtain ⟨e, answered⟩ := exchange_unsent texts (loop.format env.strerror) loop.header
          (t := { t with seq := t.seq + 1 }) fails m
        exact ⟨.error e, answered, nofun, nofun⟩
  | rtnl op ns =>
      rw [invoke, rtnlOpInvoke]
      rcases rtnlSocketGet_eq ns env with ⟨-, got⟩ | ⟨opens, got⟩
      · rw [got]
        exact ⟨_, rfl, fun _ => ⟨_, rfl⟩, fun _ => rfl⟩
      · have sendFails : env.sendFails = true := by
          rw [← Bool.not_eq_false]
          exact fun sends => fails ⟨opens, sends⟩
        rw [got]
        dsimp only
        rw [if_pos sendFails]
        exact ⟨_, rfl, fun _ => ⟨_, rfl⟩, fun _ => rfl⟩

/-- A loop asks for a dump when the request does. -/
theorem dumpMode_loop {node : OpNode} {args : InvokeArgs} {loop : InvocationLoop}
    (enters : node.loop args = some loop) : loop.dumpMode = node.dumpMode args := by
  unfold OpNode.loop at enters
  split at enters
  · rw [OpNode.dumpMode]
    split at enters
    · next isGet =>
        rw [if_pos isGet]
        split at enters
        · cases enters
        · obtain rfl := Option.some.inj enters
          rfl
    · next isGet =>
        rw [if_neg isGet]
        obtain rfl := Option.some.inj enters
        rfl
  · obtain rfl := Option.some.inj enters
    rfl

/-- A request that reaches the kernel is answered by the loop behind it. -/
theorem invoke_loop {node : OpNode} {args : InvokeArgs} {env : RtnlEnv} {m : Bytes}
    (sent : node.attempt args = .send m) (reaches : node.Reaches env) :
    ∃ loop : InvocationLoop, node.loop args = some loop ∧
      (node.isRtnl = true ↔ ∃ text, loop.recvFailed env = .ok text) ∧
      node.invoke args env = loop.answer env (arrivalsIn env.buf (node.stream env m)) := by
  obtain ⟨opens, sends⟩ := reaches
  cases node with
  | genl op family t =>
      rcases invoke_genl op family t args env with
        ⟨answer, -, attempted⟩ | ⟨loop, texts, speaks, enters, exchanged⟩
      · rw [attempted] at sent
        cases answer <;> cases sent
      · refine ⟨loop, enters, ⟨nofun, ?_⟩, ?_⟩
        · rintro ⟨text, failed⟩
          cases (speaks.recvFailed env).symm.trans failed
        · rw [exchanged, sent]
          exact exchange_sent (t := { t with seq := t.seq + 1 }) speaks opens sends m
  | rtnl op ns =>
      obtain rfl := Attempt.send.inj sent
      refine ⟨.rtnl op, rfl, ⟨fun _ => ⟨_, rfl⟩, fun _ => rfl⟩, ?_⟩
      rcases rtnlSocketGet_eq ns env with ⟨closed, -⟩ | ⟨-, got⟩
      · exact absurd opens closed
      rw [invoke, rtnlOpInvoke, got]
      dsimp only
      rw [if_neg (by simp [sends]), receiveLoop_eq_arrivals]
      have same : (InvocationLoop.rtnl op).receive env
            (arrivalsIn env.buf ((OpNode.rtnl op ns).stream env (rtnlRequest op (ns.seq + 1)))) =
          receiveArrivals (rtnlBody op env.strerror) (fun l => (l, .ok (rtnlFailure "recv" env)))
            (arrivalsIn env.buf (ns.queue ++ env.answer (rtnlRequest op (ns.seq + 1)))) env.recvFails
            ⟨rtnlHeader op, 0, []⟩ := rfl
      rw [InvocationLoop.answer, same]
      cases receiveArrivals (rtnlBody op env.strerror) (fun l => (l, .ok (rtnlFailure "recv" env)))
          (arrivalsIn env.buf (ns.queue ++ env.answer (rtnlRequest op (ns.seq + 1)))) env.recvFails
          ⟨rtnlHeader op, 0, []⟩ with
      | stopped l left => rfl
      | returned r left => rfl
      | waiting l => rfl

/-- **A request that reaches the kernel** is answered by a receive loop. -/
theorem invoke_sent {node : OpNode} {args : InvokeArgs} {env : RtnlEnv} {m : Bytes}
    (sent : node.attempt args = .send m) (reaches : node.Reaches env) :
    ∃ loop : InvocationLoop, loop.dumpMode = node.dumpMode args ∧
      (node.isRtnl = true ↔ ∃ text, loop.recvFailed env = .ok text) ∧
      node.invoke args env = loop.answer env (arrivalsIn env.buf (node.stream env m)) := by
  obtain ⟨loop, enters, failed, answered⟩ := invoke_loop sent reaches
  exact ⟨loop, dumpMode_loop enters, failed, answered⟩

end OpNode

end Ykern.Invocation
