import Ykern.Invocation.Loops

/-!
# Dumps

The answer to a dump is a sequence of messages with an end. A loop shows the replies before
the end, each once, in order and with its number, and counts them; or it tells of the first
error of the kernel, and how many replies came before it (`InvocationLoop.dumpAnswer`).

This is so however the kernel packs the messages into datagrams (`answer_dump`): a loop over
datagrams is a loop over their messages, and one message after the other leaves a text and a
count that say what came before (`foldUntil_dump`).
-/

set_option autoImplicit false

namespace Ykern.Invocation

open Genl Rtnl Netlink Overlay

/-- A message with an error of the kernel; the code of an acknowledgement is zero. -/
def kernelFails (m : Bytes) : Bool := msgType m == nlmsgError && msgError m != 0

/-- The messages before the end of a dump. -/
def beforeDone (ms : List Bytes) : List Bytes := ms.takeWhile fun m => msgType m != nlmsgDone

/-- The replies that come before the end and before an error. -/
def dumpReplies (ms : List Bytes) : List Bytes :=
  ((beforeDone ms).takeWhile fun m => !kernelFails m).filter isReply

/-- Replies with their headings, numbered from a number on. -/
def entries (format : ReplyFormat) (text : Bytes → Bytes) (first : Nat) (replies : List Bytes) :
    Bytes :=
  (replies.zipIdx first).flatMap fun r => entryHeading format r.2 ++ text r.1

namespace InvocationLoop

/-- The answer to a dump. -/
def dumpAnswer (loop : InvocationLoop) (strerror : Int → CStr) (ms : List Bytes) : CStr :=
  let replies := dumpReplies ms
  match (beforeDone ms).find? kernelFails with
  | some e => kernelErrorText (loop.format strerror) (negatedCode (msgError e)) replies.length
  | none =>
      loop.header ++ entries (loop.format strerror) loop.replyText 1 replies ++
        lit "\n(" ++ decimal replies.length ++ lit " " ++
        (if replies.length = 1 then loop.nouns.1 else loop.nouns.2) ++ lit ")\n"

end InvocationLoop

/-! ## One message after the other -/

theorem dumpReplies_done {m : Bytes} (done : msgType m = nlmsgDone) (ms : List Bytes) :
    beforeDone (m :: ms) = [] := by
  rw [beforeDone, List.takeWhile_cons_of_neg (by simp [done])]

theorem beforeDone_cons {m : Bytes} (goesOn : msgType m ≠ nlmsgDone) (ms : List Bytes) :
    beforeDone (m :: ms) = m :: beforeDone ms := by
  rw [beforeDone, List.takeWhile_cons_of_pos (by simpa using goesOn), ← beforeDone]

/-- **A loop over a dump** ends with the first error of the kernel, or leaves the text and
the number of the replies before the end. -/
theorem foldUntil_dump {loop : InvocationLoop} (dump : loop.dumpMode = true)
    (strerror : Int → CStr) (l : InvokeLocals) {ms : List Bytes}
    (ends : ∃ m ∈ ms, msgType m = nlmsgDone) :
    match (beforeDone ms).find? kernelFails with
    | some e => ∃ l', foldUntil (loop.message strerror) l ms =
        .done (l', .ok (kernelErrorText (loop.format strerror) (negatedCode (msgError e))
          (l.replyCount + (dumpReplies ms).length)))
    | none => foldUntil (loop.message strerror) l ms =
        .stopped ⟨l.text ++ entries (loop.format strerror) loop.replyText (l.replyCount + 1)
          (dumpReplies ms), l.replyCount + (dumpReplies ms).length, l.rendered ++ dumpReplies ms⟩ := by
  induction ms generalizing l with
  | nil =>
      obtain ⟨m, member, -⟩ := ends
      cases member
  | cons m ms ih =>
      by_cases done : msgType m = nlmsgDone
      · have stops : loop.message strerror l m = .stop l := by
          rw [InvocationLoop.message, if_pos done]
        rw [dumpReplies, dumpReplies_done done, foldUntil, stops]
        simp [entries]
      have later : ∃ m ∈ ms, msgType m = nlmsgDone := by
        obtain ⟨d, member, isDone⟩ := ends
        rcases List.mem_cons.mp member with rfl | member
        · exact absurd isDone done
        · exact ⟨d, member, isDone⟩
      rw [dumpReplies, beforeDone_cons done, foldUntil]
      by_cases error : msgType m = nlmsgError
      · by_cases code : msgError m = 0
        · -- An acknowledgement is passed over.
          have next : loop.message strerror l m = .next l := by
            rw [InvocationLoop.message, if_neg done, if_pos error, if_pos code]
          have noError : kernelFails m = false := by simp [kernelFails, code]
          have noReply : isReply m = false := by simp [isReply, error]
          rw [next, List.find?_cons_of_neg (by simp [noError]), List.takeWhile_cons_of_pos
            (by simp [noError]), List.filter_cons_of_neg (by simp [noReply])]
          exact ih l later
        · have returns : loop.message strerror l m = .done (l, .ok (kernelErrorText
              (loop.format strerror) (negatedCode (msgError m)) l.replyCount)) := by
            rw [InvocationLoop.message, if_neg done, if_pos error, if_neg code]
          have isError : kernelFails m = true := by simp [kernelFails, error, code]
          rw [returns, List.find?_cons_of_pos isError, List.takeWhile_cons_of_neg
            (by simp [isError])]
          exact ⟨l, rfl⟩
      · have isReply : isReply m = true := isReply_iff.mpr ⟨done, error⟩
        have noError : kernelFails m = false := by simp [kernelFails, error]
        have next : loop.message strerror l m = .next
            ⟨l.text ++ entryHeading (loop.format strerror) (l.replyCount + 1) ++ loop.replyText m,
              l.replyCount + 1, l.rendered ++ [m]⟩ := by
          rw [InvocationLoop.message, if_neg done, if_neg error, replyRendered,
            InvocationLoop.dumpMode_format, dump, if_pos rfl]
        rw [next, List.find?_cons_of_neg (by simp [noError]), List.takeWhile_cons_of_pos
          (by simp [noError]), List.filter_cons_of_pos isReply]
        have rest := ih ⟨l.text ++ entryHeading (loop.format strerror) (l.replyCount + 1) ++
          loop.replyText m, l.replyCount + 1, l.rendered ++ [m]⟩ later
        simp only [entries, List.zipIdx_cons, List.flatMap_cons, List.length_cons]
        rw [← dumpReplies]
        split at rest
        · obtain ⟨l', returned⟩ := rest
          refine ⟨l', returned.trans ?_⟩
          rw [Nat.add_assoc, Nat.add_comm 1]
        · refine rest.trans ?_
          simp only [entries, List.append_assoc, List.singleton_append, Nat.add_assoc,
            Nat.add_comm 1]

/-! ## Datagrams -/

/-- **A dump is answered the same however its messages are packed into datagrams**, and
whatever is behind them in the buffer: with the replies before the end, once each, in order
and numbered, and their count, or with the first error of the kernel. -/
theorem answer_dump (loop : InvocationLoop) (env : RtnlEnv) (dump : loop.dumpMode = true)
    (receives : env.recvFails = none) (ms : List Bytes)
    (ends : ∃ m ∈ ms, msgType m = nlmsgDone) (whole : ∀ m ∈ ms, loop.Whole m)
    {arrivals arrivals' : List Arrival} {batches batches' : List (List Bytes)}
    (packed : List.Forall₂ Datagram.Carries (arrivals.map Arrival.datagram) batches)
    (all : batches.flatten = ms)
    (packed' : List.Forall₂ Datagram.Carries (arrivals'.map Arrival.datagram) batches')
    (all' : batches'.flatten = ms) :
    loop.answer env arrivals = .text (.ok (loop.dumpAnswer env.strerror ms)) ∧
      loop.answer env arrivals' = loop.answer env arrivals := by
  have answered {arrivals : List Arrival} {batches : List (List Bytes)}
      (packed : List.Forall₂ Datagram.Carries (arrivals.map Arrival.datagram) batches)
      (all : batches.flatten = ms) :
      loop.answer env arrivals = .text (.ok (loop.dumpAnswer env.strerror ms)) := by
    have messages : queued (arrivals.map Arrival.datagram) = ms := (queued_of_carries packed).trans all
    have read : loop.receive env arrivals = _ := loop.receive_eq env fun m member =>
      whole m (messages ▸ (reading_sublist _ _ _).subset member)
    have order := receiveMessages_foldUntil (loop.message env.strerror)
      (fun l => (l, loop.recvFailed env)) false
      (show false = true → ∀ d ∈ arrivals.map Arrival.datagram, d.bytes ≠ [] by nofun)
      ⟨loop.header, 0, []⟩
    have walked := foldUntil_dump dump env.strerror ⟨loop.header, 0, []⟩ ends
    rw [messages] at order
    rw [receives] at read
    rw [InvocationLoop.answer, read, InvocationLoop.dumpAnswer]
    split at walked
    · obtain ⟨l', returned⟩ := walked
      rw [returned] at order
      obtain ⟨left, result⟩ := order
      rw [result]
      simp
    · rw [walked] at order
      obtain ⟨left, result⟩ := order
      rw [result]
      simp only [InvocationLoop.finish, invokeText, InvocationLoop.dumpMode_format, dump, if_true,
        List.append_assoc, Nat.zero_add, entries]
  exact ⟨answered packed all, (answered packed' all').trans (answered packed all).symm⟩

/-- A reply about a link, and the end of the dump. -/
def linkReply : Bytes := msg rtmNewlink 2 1 (List.replicate 16 0)

@[inherit_doc linkReply]
def linkDone : Bytes := msg nlmsgDone 2 1 (bytes32 0)

/-- What the dump of the links meets. -/
def linkEnv : RtnlEnv :=
  { socketFault := none, sendFails := false, bufferFails := false, recvFails := none,
    answer := fun _ => [], buf := fun _ => 0, strerror := fun _ => [], errno := 0 }

/-- The dump of one link, in two datagrams and in one. -/
theorem answer_links :
    (InvocationLoop.rtnl .getLink).answer linkEnv
        [⟨⟨linkReply, by decide⟩, fun _ => 1⟩, ⟨⟨linkDone, by decide⟩, fun _ => 2⟩] =
      .text (.ok ((InvocationLoop.rtnl .getLink).dumpAnswer linkEnv.strerror [linkReply, linkDone])) ∧
    (InvocationLoop.rtnl .getLink).answer linkEnv
        [⟨⟨linkReply ++ linkDone, by decide⟩, fun _ => 3⟩] =
      (InvocationLoop.rtnl .getLink).answer linkEnv
        [⟨⟨linkReply, by decide⟩, fun _ => 1⟩, ⟨⟨linkDone, by decide⟩, fun _ => 2⟩] := by
  have reply : nlmsg.IsFrame linkReply := msg_isFrame (by decide)
  have done : nlmsg.IsFrame linkDone := msg_isFrame (by decide)
  have alone {m : Bytes} (isFrame : nlmsg.IsFrame m) : Framing.Packs nlmsg [m] m := by
    have packs := Framing.Packs.last isFrame (show ([] : Bytes).length ≤ _ from Nat.zero_le _)
    rwa [List.append_nil] at packs
  have both : Framing.Packs nlmsg [linkReply, linkDone] (linkReply ++ linkDone) :=
    Framing.Packs.cons reply (show ([] : Bytes).length = _ from rfl) (alone done)
  refine answer_dump (.rtnl .getLink) linkEnv rfl rfl [linkReply, linkDone] ?_ ?_
    (.cons (alone reply) (.cons (alone done) .nil)) rfl (.cons both .nil) rfl
  · exact ⟨linkDone, by simp, by decide⟩
  · intro m member
    simp only [List.mem_cons, List.not_mem_nil, or_false] at member
    rcases member with rfl | rfl
    · exact ⟨by decide, by decide⟩
    · exact ⟨by decide, by decide⟩

end Ykern.Invocation
