import Ykern.Invocation.Loops

/-!
# Truncated messages

The bytes behind a datagram in the buffer, and those behind a message in its datagram, are
not the kernel's answer. A loop that looks only at what it was told is there answers the
same whatever they are (`DependsOnReceived`).

The loops check that a message is as long as it declares, and not that it has the fixed
header its type makes them read. So they look at other bytes exactly when they come to a
message that is shorter (`dependsOnReceived_iff`): of an error without its code the code is
shown (`body_short_error`), and of a reply that ends in its fixed header the last field
(`body_short_reply`).
-/

set_option autoImplicit false

namespace Ykern.Invocation

open Genl Rtnl Netlink Overlay

/-- The answer depends on the datagrams only, and what is done with a message that is read
on its bytes only. -/
structure DependsOnReceived (loop : InvocationLoop) (env : RtnlEnv) (ds : List Datagram) : Prop where
  answer : ∀ arrivals arrivals' : List Arrival, arrivals.map Arrival.datagram = ds →
    arrivals'.map Arrival.datagram = ds → loop.answer env arrivals = loop.answer env arrivals'
  messages : ∀ m ∈ (reading loop.ends env.recvFails ds).1, ∀ (mem mem' : Mem) (p p' : Nat),
    mem.slice p m.length = m → mem'.slice p' m.length = m →
      ∀ l, loop.body env.strerror mem l p = loop.body env.strerror mem' l p'

/-- A message that is read declares its length, which is at most that of the buffer. -/
theorem isFrame_of_mem_reading {ends : Bytes → Bool} {fails : Option Nat} {ds : List Datagram}
    {m : Bytes} (member : m ∈ (reading ends fails ds).1) :
    nlmsg.IsFrame m ∧ m.length ≤ 65536 := by
  obtain ⟨d, _, within⟩ := List.mem_flatMap.mp ((reading_sublist ends fails ds).subset member)
  exact ⟨Framing.isFrame_of_mem_frames within,
    (Framing.length_le_of_mem_frames within).trans d.fits⟩

/-! ## Messages that are too short -/

/-- A message at the start of memory that has a byte at an address behind it. -/
def withStale (m : Bytes) (a : Nat) (b : UInt8) : Mem :=
  Mem.place (fun a' => if a' = a then b else 0) m 0

section Stale

variable {m : Bytes} {a : Nat}

theorem slice_withStale (b : UInt8) : (withStale m a b).slice 0 m.length = m :=
  Mem.slice_place _ m 0

theorem withStale_behind (behind : m.length ≤ a) (b : UInt8) : withStale m a b a = b := by
  rw [withStale, Mem.place_outside _ (.inr (by omega)), if_pos rfl]

/-- Elsewhere the stale byte is not seen. -/
theorem withStale_elsewhere {a' : Nat} (other : a' ≠ a) (b b' : UInt8) :
    withStale m a b a' = withStale m a b' a' := by
  unfold withStale Mem.place
  simp only [if_neg other]

end Stale

/-- Codes are told apart in the text of an error. -/
theorem kernelErrorText_injective {format : ReplyFormat} {code code' : Int} {n : Nat}
    (same : kernelErrorText format code n = kernelErrorText format code' n) : code = code' := by
  have blank : lit " (" = [charByte ' ', charByte '('] := by decide
  simp only [kernelErrorText, blank, List.append_assoc, List.append_cancel_left_eq,
    List.cons_append] at same
  exact decimalInt_injective same

/-- **The code of an error that has none is read behind it.** -/
theorem body_short_error (loop : InvocationLoop) (strerror : Int → CStr) (l : InvokeLocals)
    {m : Bytes} (isFrame : nlmsg.IsFrame m) (error : msgType m = nlmsgError) (short : m.length < 20) :
    loop.body strerror (withStale m 19 1) l 0 ≠ loop.body strerror (withStale m 19 2) l 0 := by
  have type (b : UInt8) : (withStale m 19 b).load16 (0 + 4) = nlmsgError := by
    obtain ⟨declared, record⟩ := Framing.recordAt_of_stored nlmsg (withStale m 19 b) isFrame
      (p := 0) (slice_withStale b)
    rw [← msgType_recordAt (by rw [declared]; exact isFrame.1), record, error]
  have code (b : UInt8) : ((withStale m 19 b).load32 (0 + 16)).toNat =
      (withStale m 19 1 16).toNat + 256 * ((withStale m 19 1 17).toNat +
        256 * ((withStale m 19 1 18).toNat + 256 * b.toNat)) := by
    rw [Mem.load32, word32_toNat, withStale_behind (a := 19) (by omega),
      withStale_elsewhere (show 16 ≠ 19 by decide) b 1,
      withStale_elsewhere (show 17 ≠ 19 by decide) b 1,
      withStale_elsewhere (show 18 ≠ 19 by decide) b 1]
  have low16 := (withStale m 19 1 16).toNat_lt
  have low17 := (withStale m 19 1 17).toNat_lt
  have low18 := (withStale m 19 1 18).toNat_lt
  have one := code 1
  have two := code 2
  rw [show (1 : UInt8).toNat = 1 from rfl] at one
  rw [show (2 : UInt8).toNat = 2 from rfl] at two
  have returns (b : UInt8) (some : ((withStale m 19 b).load32 (0 + 16)).toNat ≠ 0) :
      loop.body strerror (withStale m 19 b) l 0 =
        .done (l, .ok (kernelErrorText (loop.format strerror)
          (negatedCode ((withStale m 19 b).load32 (0 + 16))) l.replyCount)) := by
    rw [InvocationLoop.body_eq, type b, if_neg (by decide), if_pos rfl, if_neg]
    intro zero
    rw [zero] at some
    exact some rfl
  rw [returns 1 (by omega), returns 2 (by omega)]
  intro same
  have text := Except.ok.inj (Prod.mk.inj (Control.done.inj same)).2
  have codes := kernelErrorText_injective text
  have defined (b : UInt8) (small : ((withStale m 19 b).load32 (0 + 16)).toNat < 2 ^ 31) :
      (withStale m 19 b).load32 (0 + 16) ≠ 0x80000000 := by
    intro least
    rw [least] at small
    exact absurd small (by decide)
  rw [negatedCode_eq (defined 1 (by omega)), negatedCode_eq (defined 2 (by omega)),
    toInt_eq (by omega), toInt_eq (by omega)] at codes
  omega

/-- **The last field of a header that is not there is read behind the message.** -/
theorem body_short_reply (loop : InvocationLoop) (strerror : Int → CStr) (l : InvokeLocals)
    {m : Bytes} (isFrame : nlmsg.IsFrame m) (reply : isReply m = true)
    (short : m.length < loop.replyHeader) :
    loop.body strerror (withStale m (loop.replyHeader - 1) 1) l 0 ≠
      loop.body strerror (withStale m (loop.replyHeader - 1) 2) l 0 := by
  have covers : 16 ≤ m.length := isFrame.1
  cases loop with
  | ethtoolGet op family schema args =>
      have none : m.length < 16 := short
      omega
  | genericGenl op family args =>
      have none : m.length < 16 := short
      omega
  | rtnl op =>
      have short : m.length < 16 + (rtnlOps op).hdrSkip := short
      obtain ⟨notDone, notError⟩ := isReply_iff.mp reply
      have stored (b : UInt8) := Framing.recordAt_of_stored nlmsg
        (withStale m (16 + (rtnlOps op).hdrSkip - 1) b) isFrame (p := 0) (slice_withStale b)
      have type (b : UInt8) :
          (withStale m (16 + (rtnlOps op).hdrSkip - 1) b).load16 (0 + 4) = msgType m := by
        obtain ⟨declared, record⟩ := stored b
        rw [← msgType_recordAt (by rw [declared]; exact covers), record]
      -- There are no attributes, so the header is all that is rendered.
      have rendered (b : UInt8) :
          renderRtnlReply op (withStale m (16 + (rtnlOps op).hdrSkip - 1) b) 0 =
            renderMsgHeader (rtnlOps op) (withStale m (16 + (rtnlOps op).hdrSkip - 1) b) 16 := by
        have small : (rtnlOps op).hdrSkip ≤ 16 := by cases op <;> decide
        have noAttrs : ¬nla.Ok (withStale m (16 + (rtnlOps op).hdrSkip - 1) b)
            (0 + 16 + (rtnlOps op).hdrSkip) ((m.length : Int) - 16 - (rtnlOps op).hdrSkip) := by
          intro ok
          have long : (4 : Int) ≤ _ := ok.1
          omega
        rw [renderRtnlReply, align4_hdrSkip, (stored b).1, toInt_eq (by omega)]
        rw [Framing.walk_of_not_ok noAttrs, List.flatMap_nil, List.append_nil]
      have replies (b : UInt8) :
          (InvocationLoop.rtnl op).body strerror
              (withStale m (16 + (rtnlOps op).hdrSkip - 1) b) l 0 =
            replyRendered (rtnlFormat op strerror) l (renderMsgHeader (rtnlOps op)
              (withStale m (16 + (rtnlOps op).hdrSkip - 1) b) 16) m := by
        rw [InvocationLoop.body_eq, type b, if_neg notDone, if_neg notError, (stored b).2,
          InvocationLoop.render, rendered b]
        rfl
      have size : 0 < (rtnlOps op).hdrSkip := by cases op <;> decide
      have place : 16 + ((rtnlOps op).hdrSkip - 1) = 16 + (rtnlOps op).hdrSkip - 1 := by omega
      intro same
      have same := (replies 1).symm.trans (same.trans (replies 2))
      refine renderMsgHeader_last ?_ ?_ (replyRendered_injective same)
      · apply Mem.slice_congr
        intro a _ within
        exact withStale_elsewhere (by omega) 1 2
      · rw [place, withStale_behind (by omega), withStale_behind (by omega)]
        decide

/-! ## The condition -/

/-- **A loop depends on what was received exactly when every message it reads is as long as
the fixed header its type makes the loop read.** -/
theorem dependsOnReceived_iff (loop : InvocationLoop) (env : RtnlEnv) (ds : List Datagram) :
    DependsOnReceived loop env ds ↔
      ∀ m ∈ (reading loop.ends env.recvFails ds).1, loop.Whole m := by
  constructor
  · intro depends m member
    obtain ⟨isFrame, -⟩ := isFrame_of_mem_reading member
    have l : InvokeLocals := ⟨[], 0, []⟩
    refine ⟨?_, ?_⟩
    · intro error
      by_contra short
      exact body_short_error loop env.strerror l isFrame error (by omega)
        (depends.messages m member _ _ 0 0 (slice_withStale 1) (slice_withStale 2) l)
    · intro reply
      by_contra short
      exact body_short_reply loop env.strerror l isFrame reply (by omega)
        (depends.messages m member _ _ 0 0 (slice_withStale 1) (slice_withStale 2) l)
  · intro whole
    refine ⟨?_, ?_⟩
    · rintro arrivals arrivals' rfl same
      have read := loop.receive_eq env whole
      rw [← same] at whole
      have read' := loop.receive_eq env whole
      rw [same] at read'
      rw [InvocationLoop.answer, InvocationLoop.answer, read, read']
    · intro m member mem mem' p p' stored stored' l
      obtain ⟨isFrame, short⟩ := isFrame_of_mem_reading member
      -- Anywhere in memory the body does with a whole message what the bytes say.
      have looks {mem : Mem} {p : Nat} (stored : mem.slice p m.length = m) :
          loop.body env.strerror mem l p = loop.message env.strerror l m := by
        obtain ⟨declared, record⟩ := Framing.recordAt_of_stored nlmsg mem isFrame stored
        have effect : loop.body env.strerror mem l p =
            loop.message env.strerror l (nlmsg.recordAt mem p) := by
          apply loop.body_recordAt
          · rw [declared]; exact isFrame.1
          · rw [declared]; exact short
          · rw [record]; exact whole m member
        rwa [record] at effect
      rw [looks stored, looks stored']

/-- An error without its code. -/
def codelessError : Bytes := msg nlmsgError 0 1 []

/-- The datagram with this error. -/
def codelessDatagram : Datagram := ⟨codelessError, by decide⟩

/-- The operation that asks nl80211 for its stations. -/
def stationLoop : InvocationLoop :=
  .genericGenl ⟨17, 14, some (lit "GET_STATION"), none, none⟩
    ⟨lit "nl80211", 30, 1, 0, 0, [], [], none⟩ []

/-- What the operation meets. -/
def stationEnv (n : Option Nat) : RtnlEnv :=
  { socketFault := none, sendFails := false, bufferFails := false, recvFails := n,
    answer := fun _ => [], buf := fun _ => 0, strerror := fun _ => [], errno := 0 }

/-- A datagram with one message is walked in one step. -/
theorem walk_codelessError (stale : Mem) :
    nlmsg.walk (stale.place codelessError 0) 0 codelessError.length = [0] := by
  have isFrame : nlmsg.IsFrame codelessError := msg_isFrame (by decide)
  have declared := Framing.declaredAt_place nlmsg stale isFrame 0
  have length : codelessError.length = 16 := rfl
  have first : nlmsg.Ok (stale.place codelessError 0) 0 codelessError.length := by
    rw [Framing.Ok, declared, length]
    decide
  rw [Framing.walk_of_ok first, Framing.walk_of_not_ok]
  intro second
  have long : (16 : Int) ≤ _ := second.1
  rw [declared, length] at long
  exact absurd long (by decide)

/-- The answer to this datagram is what the body makes of the message. -/
theorem answer_codelessError (stale : Mem) :
    stationLoop.answer (stationEnv none) [⟨codelessDatagram, stale⟩] =
      match stationLoop.body (fun _ => []) (stale.place codelessError 0)
        ⟨stationLoop.header, 0, []⟩ 0 with
      | .next _ => .waiting
      | .stop l => .text (.ok (stationLoop.finish l))
      | .done r => .text r.2 := by
  have walk := walk_codelessError stale
  rw [InvocationLoop.answer, InvocationLoop.receive, receiveArrivals, if_neg (by decide)]
  simp only [Arrival.buf, codelessDatagram, walk, foldUntil, stationEnv]
  cases stationLoop.body (fun _ => []) (stale.place codelessError 0) ⟨stationLoop.header, 0, []⟩ 0 with
  | next l => simp [receiveArrivals]
  | stop l => rfl
  | done r => rfl

/-- With zeroes behind the datagram the loop waits for more, and with other bytes it answers
that the kernel returned an error. -/
theorem codelessError_answers :
    stationLoop.answer (stationEnv none) [⟨codelessDatagram, fun _ => 0⟩] ≠
      stationLoop.answer (stationEnv none) [⟨codelessDatagram, fun _ => 255⟩] := by
  have zeroes (l : InvokeLocals) : stationLoop.body (fun _ => [])
      (Mem.place (fun _ => 0) codelessError 0) l 0 = .next l := by
    rw [InvocationLoop.body_eq, if_neg (by decide +kernel), if_pos (by decide +kernel),
      if_pos (by decide +kernel)]
  have others (l : InvokeLocals) : stationLoop.body (fun _ => [])
      (Mem.place (fun _ => 255) codelessError 0) l 0 =
        .done (l, .ok (kernelErrorText (stationLoop.format fun _ => []) 1 l.replyCount)) := by
    rw [InvocationLoop.body_eq, if_neg (by decide +kernel), if_pos (by decide +kernel),
      if_neg (by decide +kernel)]
    rfl
  rw [answer_codelessError, answer_codelessError, zeroes, others]
  nofun

end Ykern.Invocation
