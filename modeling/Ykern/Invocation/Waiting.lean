import Ykern.Invocation.Results
import Mathlib.Logic.Relation

/-!
# Waiting for an answer

An invocation with arguments and the kernel exchange messages (`Step`): the client sends its
request or answers without, the kernel puts the messages of its answer on the socket, in
datagrams of any number of them, and the client receives one datagram after the other. It is
stuck when it waits, the kernel has finished and no datagram is in flight (`System.Stuck`).

The client goes on waiting after an acknowledgement, and its request does not ask for one. So
a request that is answered with replies or an error never gets stuck: while the client waits,
a message that ends its loop is on the way (`System.Awaited`). A request that succeeds without
replies is not answered at all (`stuck_unreachable_iff`).
-/

set_option autoImplicit false

namespace Ykern.Invocation

open Genl Rtnl Netlink Overlay

/-! ## The kernel -/

/-- `NLM_F_ACK`. -/
def nlmFAck : UInt16 := 0x4

/-- The request asks for an acknowledgement. -/
def wantsAck (m : Bytes) : Bool := field16 m 6 &&& nlmFAck != 0

/-- What the kernel makes of a request: it fails with an error, or succeeds with replies, and
with an acknowledgement if the request asks for one. -/
inductive Verdict where
  | fails (error : Bytes)
  | succeeds (replies : List Bytes) (ack : Bytes)

namespace Verdict

/-- The messages are those of netlink: an error has a code and an acknowledgement the code
zero, and replies are neither of these nor the end of a dump. -/
def Regular : Verdict → Prop
  | .fails error => msgType error = nlmsgError ∧ 20 ≤ error.length ∧ msgError error ≠ 0
  | .succeeds replies ack => (∀ r ∈ replies, isReply r = true) ∧
      msgType ack = nlmsgError ∧ 20 ≤ ack.length ∧ msgError ack = 0

/-- The messages that answer a request. -/
def answer (m : Bytes) : Verdict → List Bytes
  | .fails error => [error]
  | .succeeds replies ack => if wantsAck m then replies ++ [ack] else replies

/-- The verdict is told to the client in any case. -/
def Told : Verdict → Prop
  | .fails _ => True
  | .succeeds replies _ => replies ≠ []

theorem answer_hasCode {v : Verdict} (regular : v.Regular) (m : Bytes) :
    ∀ r ∈ v.answer m, HasCode r := by
  intro r member
  cases v with
  | fails error =>
      obtain rfl := List.mem_singleton.mp member
      exact fun _ => regular.2.1
  | succeeds replies ack =>
      obtain ⟨areReplies, -, long, -⟩ := regular
      rw [answer] at member
      have either : r ∈ replies ++ [ack] → HasCode r := by
        intro member
        rcases List.mem_append.mp member with reply | isAck
        · exact fun error => absurd error (isReply_iff.mp (areReplies r reply)).2
        · obtain rfl := List.mem_singleton.mp isAck
          exact fun _ => long
      split at member
      · exact either member
      · exact either (List.mem_append_left _ member)

/-- A verdict that is told in any case is told by a message that ends the loop. -/
theorem any_ends_answer {v : Verdict} (regular : v.Regular) (told : v.Told) (m : Bytes) :
    (v.answer m).any (invokeEnds false) = true := by
  cases v with
  | fails error =>
      obtain ⟨isError, -, code⟩ := regular
      simp [answer, invokeEnds, isError, code]
  | succeeds replies ack =>
      obtain ⟨first, member⟩ := List.exists_mem_of_ne_nil replies told
      have ends : invokeEnds false first = true := by simp [invokeEnds, regular.1 first member]
      refine List.any_eq_true.mpr ⟨first, ?_, ends⟩
      rw [answer]
      split
      · exact List.mem_append_left _ member
      · exact member

end Verdict

/-! ## The system -/

/-- The state of the invocation: before its request, in its receive loop, or over. -/
inductive Client where
  | ready
  | receiving (l : InvokeLocals)
  | ended (answer : Except Error CStr)

/-- The state of the kernel; while it answers, the messages it has yet to send. -/
inductive Kernel where
  | idle
  | answering (rest : List Bytes)
  | finished

/-- The messages the kernel has yet to send. -/
def Kernel.rest : Kernel → List Bytes
  | .answering rest => rest
  | .idle | .finished => []

/-- The parties, and the datagrams in flight. -/
structure System where
  client : Client
  kernel : Kernel
  flight : List Datagram

/-- Nothing has happened yet. -/
def System.start : System := ⟨.ready, .idle, []⟩

/-- The client waits, the kernel has finished, and nothing is in flight. -/
def System.Stuck (s : System) : Prop :=
  (∃ l, s.client = .receiving l) ∧ s.kernel = .finished ∧ s.flight = []

/-- An invocation, with what the kernel makes of its request. -/
structure Exchange where
  op : Operation
  family : Family
  args : InvokeArgs
  seq : UInt32
  strerror : Int → CStr
  verdict : Bytes → Verdict

namespace Exchange

/-- The request, or what is answered without. -/
def request (x : Exchange) : Attempt := genericRequest x.op x.family x.args x.seq

/-- The receive loop. -/
def loop (x : Exchange) : InvocationLoop := .genericGenl x.op x.family x.args

/-- The client after its loop has walked over a datagram. -/
def walked (x : Exchange) : Ended InvokeLocals (InvokeLocals × Except Error CStr) → Client
  | .ran l => .receiving l
  | .stopped l => .ended (.ok (x.loop.finish l))
  | .done r => .ended r.2

/-- What the loop does with a datagram. -/
def walk (x : Exchange) (l : InvokeLocals) (a : Arrival) :
    Ended InvokeLocals (InvokeLocals × Except Error CStr) :=
  foldUntil (x.loop.body x.strerror a.buf) l (nlmsg.walk a.buf 0 a.datagram.bytes.length)

/-- What can happen next. -/
inductive Step (x : Exchange) : System → System → Prop where
  /-- The client answers without a request. -/
  | refuse {text : CStr} {k : Kernel} {ds : List Datagram} (refused : x.request = .text text) :
      Step x ⟨.ready, k, ds⟩ ⟨.ended (.ok text), k, ds⟩
  /-- The client fails before its request. -/
  | fail {e : Error} {k : Kernel} {ds : List Datagram} (failed : x.request = .error e) :
      Step x ⟨.ready, k, ds⟩ ⟨.ended (.error e), k, ds⟩
  /-- The socket does not let the request through. -/
  | unsent {m : Bytes} {e : Error} {k : Kernel} {ds : List Datagram}
      (request : x.request = .send m) : Step x ⟨.ready, k, ds⟩ ⟨.ended (.error e), k, ds⟩
  /-- The client sends its request. -/
  | send {m : Bytes} {ds : List Datagram} (request : x.request = .send m) :
      Step x ⟨.ready, .idle, ds⟩
        ⟨.receiving ⟨x.loop.header, 0, []⟩, .answering ((x.verdict m).answer m), ds⟩
  /-- The kernel sends a datagram. -/
  | answer {c : Client} {batch rest : List Bytes} {d : Datagram} {ds : List Datagram}
      (nonempty : batch ≠ []) (carries : d.Carries batch) :
      Step x ⟨c, .answering (batch ++ rest), ds⟩ ⟨c, .answering rest, ds ++ [d]⟩
  /-- The kernel has sent everything. -/
  | finish {c : Client} {ds : List Datagram} :
      Step x ⟨c, .answering [], ds⟩ ⟨c, .finished, ds⟩
  /-- The client receives a datagram. -/
  | recv {l : InvokeLocals} {k : Kernel} {ds : List Datagram} (a : Arrival) :
      Step x ⟨.receiving l, k, a.datagram :: ds⟩ ⟨x.walked (x.walk l a), k, ds⟩
  /-- The client fails to receive. -/
  | recvFails {l : InvokeLocals} {k : Kernel} {ds : List Datagram} :
      Step x ⟨.receiving l, k, ds⟩ ⟨.ended (.error [genericTexts.recvFailed]), k, ds⟩

/-- The states of the runs. -/
def Reachable (x : Exchange) : System → Prop := Relation.ReflTransGen x.Step System.start

/-! ## What is awaited -/

/-- While the client waits, the messages in flight and those the kernel has yet to send are
whole, and there is one that ends the loop. Before, nothing is in flight. -/
def Awaited (s : System) : Prop :=
  match s.client with
  | .ready => s.kernel = .idle ∧ s.flight = []
  | .receiving _ => (∀ m ∈ queued s.flight ++ s.kernel.rest, HasCode m) ∧
      (queued s.flight ++ s.kernel.rest).any (invokeEnds false) = true
  | .ended _ => True

/-- A request that is sent was given arguments, and its verdict is told. -/
structure Told (x : Exchange) : Prop where
  args : x.args ≠ []
  regular : ∀ m, (x.verdict m).Regular
  told : ∀ m, x.request = .send m → (x.verdict m).Told

/-- With arguments the loop ends at the first reply. -/
theorem ends_loop {x : Exchange} (args : x.args ≠ []) : x.loop.ends = invokeEnds false := by
  have single : x.loop.dumpMode = false := List.isEmpty_eq_false_iff.mpr args
  rw [InvocationLoop.ends, single]

/-- **A step keeps what is awaited.** -/
theorem Awaited.step {x : Exchange} (told : x.Told) {s s' : System} (awaited : Awaited s)
    (step : x.Step s s') : Awaited s' := by
  cases step with
  | refuse => trivial
  | fail => trivial
  | unsent => trivial
  | recvFails => trivial
  | send request =>
      obtain ⟨-, rfl⟩ := awaited
      have regular := told.regular
      exact ⟨Verdict.answer_hasCode (regular _) _,
        Verdict.any_ends_answer (regular _) (told.told _ request) _⟩
  | @answer c batch rest d ds _ carries =>
      cases c with
      | ready => cases awaited.1
      | ended => trivial
      | receiving l =>
          have same : queued (ds ++ [d]) ++ rest = queued ds ++ (batch ++ rest) := by
            rw [queued, List.flatMap_append, List.flatMap_singleton, carries.messages_eq,
              List.append_assoc, ← queued]
          unfold Awaited at awaited ⊢
          simp only [Kernel.rest] at awaited ⊢
          rwa [same]
  | @finish c ds =>
      cases c with
      | ready => cases awaited.1
      | ended => trivial
      | receiving l => exact awaited
  | @recv l k ds a =>
      obtain ⟨hasCode, ends⟩ := awaited
      rw [queued_cons, List.append_assoc] at hasCode ends
      have walked := (x.loop.endsAt x.strerror).walk (a := a)
        (fun m member => hasCode m (List.mem_append_left _ member)) l
      rw [ends_loop told.args] at walked
      cases isEnd : a.datagram.messages.any (invokeEnds false) with
      | true =>
          rcases walked.1 isEnd with ⟨l', stopped⟩ | ⟨r, done, -⟩
          · rw [walk, stopped]
            trivial
          · rw [walk, done]
            trivial
      | false =>
          obtain ⟨l', ran⟩ := walked.2 isEnd
          rw [walk, ran]
          rw [List.any_append, isEnd, Bool.false_or] at ends
          exact ⟨fun m member => hasCode m (List.mem_append_right _ member), ends⟩

/-- **In every state of a run an end is awaited.** -/
theorem Awaited.reachable {x : Exchange} (told : x.Told) {s : System} (reached : x.Reachable s) :
    Awaited s := by
  induction reached with
  | refl => exact ⟨rfl, rfl⟩
  | tail _ step awaited => exact awaited.step told step

/-- When an end is awaited, the system is not stuck. -/
theorem Awaited.not_stuck {s : System} (awaited : Awaited s) : ¬s.Stuck := by
  rintro ⟨⟨l, waiting⟩, finished, noFlight⟩
  unfold Awaited at awaited
  rw [waiting, finished, noFlight] at awaited
  cases awaited.2

/-! ## Getting stuck -/

/-- A request with arguments does not ask for an acknowledgement. -/
theorem wantsAck_request {x : Exchange} (args : x.args ≠ []) {m : Bytes}
    (request : x.request = .send m) : wantsAck m = false := by
  cases found : genericAttrSet x.op x.family with
  | none =>
      have empty : x.args.isEmpty = false := List.isEmpty_eq_false_iff.mpr args
      rw [Exchange.request, genericRequest, if_neg (by simp [empty]), found] at request
      cases request
  | some attrsSet =>
      rcases genericRequest_sends x.op x.family x.seq args found with
        ⟨-, never⟩ | ⟨-, cmd, version, sent⟩
      · exact absurd request (never m)
      · obtain rfl := Attempt.send.inj (sent.symm.trans request)
        have flags : field16 (msg x.family.id nlmFRequest x.seq (genlHeader cmd version ++
            Framing.encode (x.args.map (argAttr attrsSet)))) 6 = nlmFRequest :=
          word16_bytes16 nlmFRequest
        rw [wantsAck, flags]
        decide

/-- A request that succeeds without replies leaves the client waiting. -/
theorem reaches_stuck {x : Exchange} (args : x.args ≠ []) {m ack : Bytes}
    (request : x.request = .send m) (silent : x.verdict m = .succeeds [] ack) :
    ∃ s, x.Reachable s ∧ s.Stuck := by
  have nothing : (x.verdict m).answer m = [] := by
    rw [silent, Verdict.answer, wantsAck_request args request, if_neg Bool.false_ne_true]
  have sent : x.Step System.start _ := .send request
  rw [nothing] at sent
  exact ⟨_, .tail (.single sent) .finish, ⟨_, rfl⟩, rfl, rfl⟩

end Exchange

/-- **No reachable state is stuck exactly when every request that is sent fails or is answered
with a reply.** -/
theorem stuck_unreachable_iff (x : Exchange) (args : x.args ≠ [])
    (regular : ∀ m, (x.verdict m).Regular) :
    (∀ s, x.Reachable s → ¬s.Stuck) ↔ ∀ m, x.request = .send m → (x.verdict m).Told := by
  constructor
  · intro never m request
    cases verdict : x.verdict m with
    | fails error => trivial
    | succeeds replies ack =>
        cases replies with
        | cons first replies => exact List.cons_ne_nil _ _
        | nil =>
            obtain ⟨s, reached, stuck⟩ := Exchange.reaches_stuck args request verdict
            exact absurd stuck (never s reached)
  · intro told s reached
    exact (Exchange.Awaited.reachable ⟨args, regular, told⟩ reached).not_stuck

/-- A request that sets the interface of nl80211, and what the kernel makes of it. -/
def setInterface (verdict : Verdict) : Exchange where
  op := ⟨6, 10, some (lit "SET_INTERFACE"), none, none⟩
  family := wirelessFamily
  args := wirelessArgs
  seq := 1
  strerror := fun _ => []
  verdict := fun _ => verdict

/-- An acknowledgement. -/
def acknowledgement : Bytes := msg nlmsgError 0 1 (bytes32 0)

/-- The client has arguments, and does not wait for ever when the kernel replies. -/
theorem setInterface_replied : wirelessArgs ≠ [] ∧
    ∀ s, (setInterface (.succeeds [stationReply 1] acknowledgement)).Reachable s → ¬s.Stuck := by
  refine ⟨by decide, ?_⟩
  refine (stuck_unreachable_iff (setInterface (.succeeds [stationReply 1] acknowledgement))
    (by decide) fun _ => ⟨by decide, by decide⟩).mpr ?_
  intro m _
  exact List.cons_ne_nil _ _

/-- The client waits for ever when the kernel sets the interface and has nothing to reply. -/
theorem setInterface_stuck :
    ∃ s, (setInterface (.succeeds [] acknowledgement)).Reachable s ∧ s.Stuck := by
  obtain ⟨m, request⟩ : ∃ m, (setInterface (.succeeds [] acknowledgement)).request = .send m :=
    ⟨_, rfl⟩
  exact Exchange.reaches_stuck (by decide) request rfl

end Ykern.Invocation
