import Ykern.Genl.Transport
import Ykern.Netlink.Reading

/-!
# Requests one after another

A request should handle the replies that carry its own sequence number, all of them and no
others, and leave none of its messages to the next request (`Own`). In a run from a new
transport this is so for every request exactly when every request is answered
conclusively (`steps_own_iff`): its loop reads the answer to the end. The step of the
induction is about one request that finds the queue empty (`own_iff_conclusive`).

The invocations end at the first reply unless they ask for a dump, at an error of the
kernel, and when a system call fails. What they leave on the socket is received by the next
invocation, which does not look at sequence numbers (`leftoverReply_rendered`).
-/

set_option autoImplicit false

namespace Ykern.Genl

open Overlay Netlink

/-! ## What the loops read -/

/-- The messages that end the loop of an invocation. -/
def invokeEnds (dumpMode : Bool) (m : Bytes) : Bool :=
  msgType m == nlmsgDone || (msgType m == nlmsgError && msgError m != 0) ||
    (isReply m && !dumpMode)

/-- The replies the enumeration handles: they have a generic netlink header. -/
def populateHandles (m : Bytes) : Bool := isReply m && decide (20 ≤ m.length)

theorem isReply_iff {m : Bytes} :
    isReply m = true ↔ msgType m ≠ nlmsgDone ∧ msgType m ≠ nlmsgError := by
  simp [isReply]

/-- The loop of an invocation records the replies. -/
theorem invokeMessage_records (format : ReplyFormat) :
    Records (invokeMessage format) InvokeLocals.rendered (fun r => r.1.rendered)
      (invokeEnds format.dumpMode) isReply fun _ => true where
  goesOn l m _ notEnd := by
    simp only [invokeEnds, Bool.or_eq_false_iff] at notEnd
    obtain ⟨⟨notDone, noError⟩, noReply⟩ := notEnd
    rw [invokeMessage, if_neg (by simpa using notDone)]
    by_cases error : msgType m = nlmsgError
    · have code : msgError m = 0 := by simpa [error] using noError
      rw [if_pos error, if_pos code]
      exact ⟨l, rfl, by simp [isReply, error]⟩
    · have reply : isReply m = true := isReply_iff.mpr ⟨by simpa using notDone, error⟩
      have dump : format.dumpMode = true := by simpa [reply] using noReply
      rw [if_neg error, replyRendered, dump]
      exact ⟨_, rfl, by simp [reply]⟩
  isOver l m _ isEnd := by
    rw [invokeMessage]
    by_cases done : msgType m = nlmsgDone
    · rw [if_pos done]
      exact .inl ⟨l, rfl, by simp [isReply, done]⟩
    rw [if_neg done]
    by_cases error : msgType m = nlmsgError
    · have code : msgError m ≠ 0 := by
        simpa [invokeEnds, isReply, error, nlmsgError, nlmsgDone] using isEnd
      rw [if_pos error, if_neg code]
      exact .inr ⟨_, rfl, by simp [isReply, error]⟩
    · have reply : isReply m = true := isReply_iff.mpr ⟨done, error⟩
      have dump : format.dumpMode = false := by
        simpa [invokeEnds, reply, done, error] using isEnd
      rw [if_neg error, replyRendered, dump]
      exact .inl ⟨_, rfl, by simp [reply]⟩

/-- The loop of the enumeration records the replies it handles, and ends with anything else
that carries its number. -/
theorem populateMessage_records (base : CStr) (files : CStr → OverlayFile) (seq : UInt32) :
    Records (populateMessage base files seq) PopulateLocals.processed (fun r => r.1.processed)
      (fun m => !populateHandles m) populateHandles fun m => msgSeq m == seq where
  goesOn l m own handled := by
    have handles : populateHandles m = true := by simpa using handled
    have regular := handles
    simp only [populateHandles, Bool.and_eq_true, isReply_iff, decide_eq_true_eq] at regular
    rw [populateMessage, if_neg (by simpa using own), if_neg regular.1.1, if_neg regular.1.2,
      if_neg (by omega)]
    exact ⟨_, rfl, by simp [handles]⟩
  isOver l m own handled := by
    have handles : populateHandles m = false := by simpa using handled
    rw [populateMessage, if_neg (by simpa using own)]
    by_cases done : msgType m = nlmsgDone
    · rw [if_pos done]
      exact .inl ⟨l, rfl, by simp [handles]⟩
    rw [if_neg done]
    by_cases error : msgType m = nlmsgError
    · rw [if_pos error]
      exact .inr ⟨_, rfl, by simp [handles]⟩
    have short : m.length < 20 := by
      simpa [populateHandles, isReply_iff.mpr ⟨done, error⟩] using handles
    rw [if_neg error, if_pos short]
    exact .inr ⟨_, rfl, by simp [handles]⟩

/-! ## Turns -/

/-- The kernel answers a message with messages that carry its number. -/
structure Env.Answers (env : Env) : Prop where
  nonempty : ∀ m, ∀ d ∈ env.answer m, d.messages ≠ []
  sameSeq : ∀ m, ∀ d ∈ env.answer m, ∀ r ∈ d.messages, msgSeq r = msgSeq m
  hasCode : ∀ m, ∀ d ∈ env.answer m, ∀ r ∈ d.messages, HasCode r

/-- The answer to a message, if it is sent. -/
def Env.answered (env : Env) (t : Transport) : Option Bytes → List Datagram
  | some m =>
      if (t.isOpen = true ∨ env.socketFault = none) ∧ env.sendFails = false then env.answer m
      else []
  | none => []

section Answered

variable {env : Env} {t : Transport}

theorem Env.answered_closed (closed : ¬(t.isOpen = true ∨ env.socketFault = none))
    (message : Option Bytes) : env.answered t message = [] := by
  cases message with
  | none => rfl
  | some m => exact if_neg fun both => closed both.1

theorem Env.answered_unsent (fails : env.sendFails = true) (message : Option Bytes) :
    env.answered t message = [] := by
  cases message with
  | none => rfl
  | some m => exact if_neg fun both => by simp [fails] at both

theorem Env.answered_sent (opened : t.isOpen = true ∨ env.socketFault = none)
    (sends : env.sendFails = false) (m : Bytes) : env.answered t (some m) = env.answer m :=
  if_pos ⟨opened, sends⟩

end Answered

/-- A request, with what it meets. -/
structure Turn where
  request : Request
  env : Env

/-- What comes of a turn. -/
def Turn.run (turn : Turn) (t : Transport) : Outcome := turn.request.run t turn.env

/-- What the kernel answers in a turn. -/
def Turn.answered (turn : Turn) (t : Transport) : List Datagram :=
  turn.env.answered t (turn.request.message (t.seq + 1))

/-- After how many datagrams receiving fails, if it does. Without a buffer it fails at once. -/
def Turn.fails (turn : Turn) : Option Nat :=
  match turn.request with
  | .populate _ _ _ => if turn.env.bufferFails then some 0 else turn.env.recvFails
  | .invoke _ _ _ => turn.env.recvFails

/-- The messages that end the loop of a request. -/
def Request.ends : Request → Bytes → Bool
  | .populate _ _ _ => fun m => !populateHandles m
  | .invoke op family args =>
      invokeEnds (if isEthtoolGet op family then ethtoolDumpMode args else args.isEmpty)

/-- The messages a request renders or makes nodes of. -/
def Request.handles : Request → Bytes → Bool
  | .populate _ _ _ => populateHandles
  | .invoke _ _ _ => isReply

/-- The turn's loop reads the answer to the end. -/
def Turn.Conclusive (turn : Turn) (t : Transport) : Prop :=
  Netlink.Conclusive turn.request.ends turn.request.handles turn.fails (turn.answered t)

/-- The request handles the replies that carry its own number, all of them and no others,
and leaves none of its messages. -/
structure Own (t : Transport) (turn : Turn) : Prop where
  handled : (turn.run t).handled =
    (queued (t.queue ++ turn.answered t)).filter fun r => isReply r && msgSeq r == t.seq + 1
  left : ∀ r ∈ queued (turn.run t).transport.queue, msgSeq r ≠ t.seq + 1

theorem Own.handled_seq {t : Transport} {turn : Turn} (own : Own t turn) :
    ∀ r ∈ (turn.run t).handled, msgSeq r = t.seq + 1 := by
  intro r member
  rw [own.handled, List.mem_filter, Bool.and_eq_true, beq_iff_eq] at member
  exact member.2.2

/-! ## One turn -/

/-- The outcome is that of reading these datagrams. -/
def Outcome.Reads (outcome : Outcome) (ends handles : Bytes → Bool) (fails : Option Nat)
    (ds : List Datagram) : Prop :=
  outcome.handled = (reading ends fails ds).1.filter handles ∧
    outcome.transport.queue = (reading ends fails ds).2

theorem reads_nothing {outcome : Outcome} (handled : outcome.handled = [])
    (empty : outcome.transport.queue = []) (ends handles : Bytes → Bool) (fails : Option Nat) :
    outcome.Reads ends handles fails [] := by
  rw [Outcome.Reads, reading_nil, handled, empty]
  exact ⟨rfl, rfl⟩

theorem invokeOutcome_reads (texts : InvokeTexts) (format : ReplyFormat) (t : Transport)
    {reception : Reception InvokeLocals (InvokeLocals × Except Error CStr)}
    {ends handles : Bytes → Bool} {fails : Option Nat} {ds : List Datagram}
    (read : reception.log InvokeLocals.rendered (fun r => r.1.rendered) =
        [] ++ (reading ends fails ds).1.filter handles ∧
      reception.left = (reading ends fails ds).2) :
    (invokeOutcome texts format t reception).Reads ends handles fails ds := by
  cases reception <;> exact read

theorem populateOutcome_reads (t : Transport)
    {reception : Reception PopulateLocals (PopulateLocals × Error)}
    {ends handles : Bytes → Bool} {fails : Option Nat} {ds : List Datagram}
    (read : reception.log PopulateLocals.processed (fun r => r.1.processed) =
        [] ++ (reading ends fails ds).1.filter handles ∧
      reception.left = (reading ends fails ds).2) :
    (populateOutcome t reception).Reads ends handles fails ds := by
  cases reception <;> exact read

theorem socketGet_eq (t : Transport) (fault : Option SocketFault) :
    (¬(t.isOpen = true ∨ fault = none) ∧ ∃ e, socketGet t fault = .error e) ∨
      ((t.isOpen = true ∨ fault = none) ∧ socketGet t fault = .ok { t with isOpen := true }) := by
  obtain ⟨isOpen, seq, queue⟩ := t
  cases isOpen with
  | true => exact .inr ⟨.inl rfl, rfl⟩
  | false =>
      cases fault with
      | none => exact .inr ⟨.inr rfl, rfl⟩
      | some f => exact .inl ⟨by simp, f.error, rfl⟩

section Turns

variable {t : Transport} {env : Env} (answers : env.Answers) (empty : t.queue = [])

include answers empty

theorem exchange_reads (texts : InvokeTexts) (format : ReplyFormat) (header : Bytes)
    (attempt : Attempt) :
    (exchange texts format header attempt t env).Reads (invokeEnds format.dumpMode) isReply
      env.recvFails (env.answered t attempt.message) := by
  cases attempt with
  | text answer => exact reads_nothing rfl empty _ _ _
  | error e => exact reads_nothing rfl empty _ _ _
  | send m =>
      rw [exchange, Attempt.message]
      rcases socketGet_eq t env.socketFault with ⟨closed, e, got⟩ | ⟨opened, got⟩
      · rw [got, Env.answered_closed closed]
        exact reads_nothing rfl empty _ _ _
      rw [got]
      cases fails : env.sendFails with
      | true =>
          rw [Env.answered_unsent fails]
          exact reads_nothing rfl empty _ _ _
      | false =>
          rw [Env.answered_sent opened fails]
          dsimp only
          rw [if_neg Bool.false_ne_true, empty, List.nil_append,
            invokeLoop_eq format header _ (answers.hasCode m)]
          apply invokeOutcome_reads texts format _
          exact (invokeMessage_records format).receiveMessages (fun _ => rfl) false
            (fun d member => Datagram.bytes_ne_nil (answers.nonempty m d member))
            (fun _ _ _ _ => rfl) env.recvFails ⟨header, 0, []⟩

theorem nsPopulateChildren_reads (base : CStr) (files : CStr → OverlayFile)
    (children : List Family) :
    (nsPopulateChildren base files children t env).Reads (fun m => !populateHandles m)
      populateHandles (if env.bufferFails then some 0 else env.recvFails)
      (env.answered t (some (dumpRequest (t.seq + 1)))) := by
  rw [nsPopulateChildren]
  rcases socketGet_eq t env.socketFault with ⟨closed, e, got⟩ | ⟨opened, got⟩
  · rw [got, Env.answered_closed closed]
    exact reads_nothing rfl empty _ _ _
  rw [got]
  dsimp only [nextSeq]
  cases fails : env.sendFails with
  | true =>
      rw [Env.answered_unsent fails]
      exact reads_nothing rfl empty _ _ _
  | false =>
      rw [Env.answered_sent opened fails, if_neg Bool.false_ne_true, empty, List.nil_append]
      cases noBuffer : env.bufferFails with
      | true =>
          rw [if_pos rfl, if_pos rfl, Outcome.Reads, reading_failed]
          exact ⟨rfl, rfl⟩
      | false =>
          rw [if_neg Bool.false_ne_true, if_neg Bool.false_ne_true, populateLoop_eq]
          apply populateOutcome_reads _
          refine (populateMessage_records base files (t.seq + 1)).receiveMessages (fun _ => rfl)
            true (fun d member => Datagram.bytes_ne_nil (answers.nonempty _ d member)) ?_
            env.recvFails ⟨children, []⟩
          intro d member m found
          rw [answers.sameSeq _ d member m found, dumpRequest, msgSeq_msg]
          exact beq_self_eq_true _

omit answers in
/-- **A turn that finds the queue empty reads the kernel's answer.** -/
theorem Turn.run_reads {turn : Turn} (answers : turn.env.Answers) :
    (turn.run t).Reads turn.request.ends turn.request.handles turn.fails (turn.answered t) := by
  obtain ⟨request, env⟩ := turn
  cases request with
  | populate base files children =>
      exact nsPopulateChildren_reads answers empty base files children
  | invoke op family args =>
      have later : ({ t with seq := t.seq + 1 } : Transport).queue = [] := empty
      dsimp only [Turn.run, Request.run, Turn.answered, Request.message, Request.ends,
        Request.handles, Turn.fails]
      rw [opInvoke]
      cases isGet : isEthtoolGet op family with
      | true =>
          rw [if_pos rfl, if_pos rfl, if_pos rfl, invokeEthtoolGet]
          cases ethtoolSchema op family with
          | error answer => exact reads_nothing rfl empty _ _ _
          | ok schema =>
              exact exchange_reads answers later ethtoolTexts
                (ethtoolFormat op family schema args env.strerror)
                (ethtoolHeader op family schema args)
                (ethtoolRequest op family schema args (t.seq + 1))
      | false =>
          rw [if_neg Bool.false_ne_true, if_neg Bool.false_ne_true, if_neg Bool.false_ne_true]
          exact exchange_reads answers later genericTexts
            (genericFormat op family args env.strerror) (genericHeader op family args)
            (genericRequest op family args (t.seq + 1))

end Turns

/-- The messages of an answer carry the number of the request. -/
theorem Turn.answered_seq {turn : Turn} (answers : turn.env.Answers) (t : Transport) :
    ∀ d ∈ turn.answered t, d.messages ≠ [] ∧ ∀ r ∈ d.messages, msgSeq r = t.seq + 1 := by
  intro d member
  unfold Turn.answered Env.answered at member
  split at member
  · next m message =>
      split at member
      · refine ⟨answers.nonempty m d member, ?_⟩
        intro r found
        rw [answers.sameSeq m d member r found, Request.message_seq message]
      · cases member
  · cases member

theorem Request.isReply_of_handles (request : Request) :
    ∀ m, request.handles m = true → isReply m = true := by
  intro m handled
  cases request with
  | populate base files children =>
      simp only [Request.handles, populateHandles, Bool.and_eq_true] at handled
      exact handled.1
  | invoke op family args => exact handled

/-- **A request that finds the queue empty keeps to its own replies exactly when it is
answered conclusively.** -/
theorem own_iff_conclusive {t : Transport} {turn : Turn} (answers : turn.env.Answers)
    (empty : t.queue = []) : Own t turn ↔ turn.Conclusive t := by
  have numbers := turn.answered_seq answers t
  obtain ⟨handled, left⟩ := turn.run_reads empty answers
  have ownReplies : (queued (t.queue ++ turn.answered t)).filter
      (fun r => isReply r && msgSeq r == t.seq + 1) = (queued (turn.answered t)).filter isReply := by
    rw [empty, List.nil_append]
    apply List.filter_congr
    intro r member
    obtain ⟨d, inAnswer, found⟩ := List.mem_flatMap.mp member
    rw [(numbers d inAnswer).2 r found, beq_self_eq_true, Bool.and_true]
  have suffix := reading_suffix turn.request.ends turn.fails (turn.answered t)
  rw [Turn.Conclusive, ← reading_whole_iff turn.request.isReply_of_handles, ← handled, ← left]
  rw [← left] at suffix
  constructor
  · rintro ⟨all, none⟩
    refine ⟨all.trans ownReplies, List.eq_nil_iff_forall_not_mem.mpr fun d member => ?_⟩
    obtain ⟨nonempty, numbered⟩ := numbers d (suffix.subset member)
    obtain ⟨r, found⟩ := List.exists_mem_of_ne_nil _ nonempty
    exact none r (List.mem_flatMap.mpr ⟨d, member, found⟩) (numbered r found)
  · rintro ⟨all, none⟩
    exact ⟨all.trans ownReplies.symm, by simp [none]⟩

/-- A request that is answered conclusively leaves the queue empty. -/
theorem queue_of_conclusive {t : Transport} {turn : Turn} (answers : turn.env.Answers)
    (empty : t.queue = []) (conclusive : turn.Conclusive t) :
    (turn.run t).transport.queue = [] := by
  rw [(turn.run_reads empty answers).2]
  exact ((reading_whole_iff turn.request.isReply_of_handles _ _).mpr conclusive).2

/-! ## Runs -/

/-- The turns of a run with the transport each finds. A request that waits is the last. -/
def steps (t : Transport) : List Turn → List (Transport × Turn)
  | [] => []
  | turn :: turns =>
      (t, turn) ::
        match (turn.run t).answer with
        | .waiting => []
        | _ => steps (turn.run t).transport turns

theorem turn_mem_of_mem_steps {t : Transport} {turns : List Turn} {s : Transport × Turn}
    (member : s ∈ steps t turns) : s.2 ∈ turns := by
  induction turns generalizing t with
  | nil => cases member
  | cons turn turns ih =>
      rw [steps] at member
      rcases List.mem_cons.mp member with rfl | later
      · exact List.mem_cons_self
      · split at later
        · cases later
        · exact List.mem_cons_of_mem _ (ih later)

theorem steps_own_iff_of_empty {turns : List Turn} (answers : ∀ turn ∈ turns, turn.env.Answers)
    {t : Transport} (empty : t.queue = []) :
    (∀ s ∈ steps t turns, Own s.1 s.2) ↔ ∀ s ∈ steps t turns, s.2.Conclusive s.1 := by
  induction turns generalizing t with
  | nil => simp [steps]
  | cons turn turns ih =>
      have first := own_iff_conclusive (answers turn (by simp)) empty
      rw [steps, List.forall_mem_cons, List.forall_mem_cons, first]
      apply and_congr_right
      intro conclusive
      have emptyAgain := queue_of_conclusive (answers turn (by simp)) empty conclusive
      have rest := ih (fun later member => answers later (by simp [member])) emptyAgain
      split
      · simp
      · exact rest

/-- **In every run, all requests keep to their own replies exactly when all are answered
conclusively.** -/
theorem steps_own_iff {turns : List Turn} (answers : ∀ turn ∈ turns, turn.env.Answers) :
    (∀ s ∈ steps Transport.create turns, Own s.1 s.2) ↔
      ∀ s ∈ steps Transport.create turns, s.2.Conclusive s.1 :=
  steps_own_iff_of_empty answers rfl

/-! ## A leftover reply -/

/-- A reply to the request with this number. -/
def stationReply (seq : UInt32) : Bytes := msg 30 0 seq (genlHeader 17 1)

/-- So many replies, each in a datagram of its own. -/
def stationReplies (n : Nat) (m : Bytes) : List Datagram :=
  List.replicate n ⟨Framing.encode [stationReply (msgSeq m)], by
    simp [Framing.encode, stationReply, genlHeader, align4]⟩

/-- A request for one object that is answered with so many replies. -/
def stationTurn (n : Nat) : Turn :=
  ⟨.invoke ⟨17, 0, none, none, none⟩ wirelessFamily [(lit "IFINDEX", lit "2")],
    ⟨none, false, false, none, stationReplies n, fun _ => 0, fun _ => []⟩⟩

theorem stationTurn_messages (n : Nat) (m : Bytes) :
    ∀ d ∈ (stationTurn n).env.answer m, d.messages = [stationReply (msgSeq m)] := by
  intro d member
  obtain rfl := (List.mem_replicate.mp member).2
  apply Framing.frames_encode
  intro f found
  obtain rfl := List.mem_singleton.mp found
  exact msg_isFrame (by decide)

theorem stationTurn_answers (n : Nat) : (stationTurn n).env.Answers := by
  refine ⟨?_, ?_, ?_⟩
  · intro m d member
    rw [stationTurn_messages n m d member]
    exact List.cons_ne_nil _ _
  · intro m d member r found
    rw [stationTurn_messages n m d member] at found
    obtain rfl := List.mem_singleton.mp found
    exact msgSeq_msg _
  · intro m d member r found _
    rw [stationTurn_messages n m d member] at found
    obtain rfl := List.mem_singleton.mp found
    simp [stationReply, genlHeader]

/-- One reply is a conclusive answer. -/
theorem stationTurn_conclusive (t : Transport) : (stationTurn 1).Conclusive t := by
  have single : (stationTurn 1).answered t = [] ∨
      ∃ d r, (stationTurn 1).answered t = [d] ∧ d.messages = [r] := by
    unfold Turn.answered Env.answered
    split
    · next m _ =>
        split
        · exact .inr ⟨_, _, rfl, stationTurn_messages 1 m _ (List.mem_singleton_self _)⟩
        · exact .inl rfl
    · exact .inl rfl
  rw [Turn.Conclusive]
  rcases single with none | ⟨d, r, one, messages⟩
  · rw [none]
    exact ⟨.nil, .nil, fun _ _ => Nat.zero_le _, fun _ found => absurd found List.not_mem_nil⟩
  · rw [one]
    refine ⟨List.pairwise_singleton _ _, ?_, ?_, fun _ _ reply => reply⟩
    · rw [queued_cons, queued_nil, messages]
      exact List.pairwise_singleton _ _
    · intro n fails
      cases fails

/-- Requests that are answered with one reply each keep to it. -/
theorem steps_own_stations :
    (∀ turn ∈ [stationTurn 1, stationTurn 1], turn.env.Answers) ∧
      ∀ s ∈ steps Transport.create [stationTurn 1, stationTurn 1], Own s.1 s.2 := by
  have only {turn : Turn} (member : turn ∈ [stationTurn 1, stationTurn 1]) :
      turn = stationTurn 1 := by simpa using member
  have answers : ∀ turn ∈ [stationTurn 1, stationTurn 1], turn.env.Answers := by
    intro turn member
    rw [only member]
    exact stationTurn_answers 1
  refine ⟨answers, (steps_own_iff answers).mpr ?_⟩
  intro s member
  rw [only (turn_mem_of_mem_steps member)]
  exact stationTurn_conclusive s.1

/-- Of two replies, the second request renders the one that the first left. -/
theorem leftoverReply_rendered :
    (∀ turn ∈ [stationTurn 2, stationTurn 2], turn.env.Answers) ∧
      ((steps Transport.create [stationTurn 2, stationTurn 2]).map fun s =>
        (s.1.seq + 1, (s.2.run s.1).handled.map msgSeq)) = [(1, [1]), (2, [1])] ∧
      ¬∀ s ∈ steps Transport.create [stationTurn 2, stationTurn 2], Own s.1 s.2 := by
  have rendered : ((steps Transport.create [stationTurn 2, stationTurn 2]).map fun s =>
      (s.1.seq + 1, (s.2.run s.1).handled.map msgSeq)) = [(1, [1]), (2, [1])] := by decide +kernel
  refine ⟨?_, rendered, ?_⟩
  · intro turn member
    obtain rfl : turn = stationTurn 2 := by simpa using member
    exact stationTurn_answers 2
  · intro own
    have same : ∀ p ∈ (steps Transport.create [stationTurn 2, stationTurn 2]).map (fun s =>
        (s.1.seq + 1, (s.2.run s.1).handled.map msgSeq)), ∀ n ∈ p.2, n = p.1 := by
      refine List.forall_mem_map.mpr ?_
      intro s member
      refine List.forall_mem_map.mpr ?_
      intro r handled
      exact (own s member).handled_seq r handled
    rw [rendered] at same
    exact absurd (same (2, [1]) (by simp) 1 (by simp)) (by decide)

end Ykern.Genl
