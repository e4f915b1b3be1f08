import Ykern.Genl.FamilyMessage
import Ykern.Netlink.Receive

/-!
# Enumerating the families

The families are enumerated by a dump: the program asks for it with a fresh sequence
number and receives until a message with this number says that the dump is done.
Messages with other numbers are skipped (`populateBody`).

Receiving depends only on the messages that carry the number, up to the end of the dump:
one family is appended for each that describes one, in order. It depends neither on other
messages among them nor on how the messages are split into datagrams
(`populateLoop_delivered`).
-/

set_option autoImplicit false

namespace Ykern.Genl

open Overlay Netlink

/-! ## The program -/

/-- The state of `ns_populate_children` in its loop: the children of the namespace and,
for the record, the messages that were processed. -/
structure PopulateLocals where
  children : List Family
  processed : List Bytes

/-- The body of the loop of `ns_populate_children`. -/
def populateBody (base : CStr) (files : CStr → OverlayFile) (seq : UInt32) (buf : Mem)
    (l : PopulateLocals) (nh : Nat) : Control PopulateLocals (PopulateLocals × Error) :=
  if buf.load32 (nh + 8) ≠ seq then .next l
  else if buf.load16 (nh + 4) = nlmsgDone then .stop l
  else if buf.load16 (nh + 4) = nlmsgError then
    .done (l, ["genl populate: kernel returned error"])
  else
    match processFamilyMsg base files buf nh l.children with
    | .error e => .done (l, "genl populate: family processing failed" :: e)
    | .ok children => .next ⟨children, l.processed ++ [nlmsg.recordAt buf nh]⟩

/-- The receive loop of `ns_populate_children`, which ends with success when it is left. -/
def populateLoop (base : CStr) (files : CStr → OverlayFile) (seq : UInt32)
    (queue : List Datagram) (fails : Option Nat) (buf : Mem) (children : List Family) :
    Reception PopulateLocals (PopulateLocals × Error) :=
  receiveLoop (populateBody base files seq) (fun l => (l, ["genl populate: recv failed"])) true queue
    fails buf ⟨children, []⟩

/-! ## Messages -/

/-- What the body of the loop does with a message. -/
def populateMessage (base : CStr) (files : CStr → OverlayFile) (seq : UInt32) (l : PopulateLocals)
    (m : Bytes) : Control PopulateLocals (PopulateLocals × Error) :=
  if msgSeq m ≠ seq then .next l
  else if msgType m = nlmsgDone then .stop l
  else if msgType m = nlmsgError then .done (l, ["genl populate: kernel returned error"])
  else if m.length < 20 then
    .done (l, ["genl populate: family processing failed", "genl dump: truncated genlmsghdr"])
  else .next ⟨l.children ++ (familyOf base files m).toList, l.processed ++ [m]⟩

section Looks

variable {buf : Mem} {nh : Nat} (covers : 16 ≤ nlmsg.declaredAt buf nh)

include covers

theorem msgSeq_recordAt : msgSeq (nlmsg.recordAt buf nh) = buf.load32 (nh + 8) :=
  field32_slice buf nh _ (by omega)

theorem msgType_recordAt : msgType (nlmsg.recordAt buf nh) = buf.load16 (nh + 4) :=
  field16_slice buf nh _ (by omega)

theorem populateBody_eq (base : CStr) (files : CStr → OverlayFile) (seq : UInt32)
    (l : PopulateLocals) (short : nlmsg.declaredAt buf nh ≤ 65536) :
    populateBody base files seq buf l nh =
      populateMessage base files seq l (nlmsg.recordAt buf nh) := by
  unfold populateBody populateMessage
  rw [msgSeq_recordAt covers, msgType_recordAt covers, Framing.recordAt, Mem.length_slice,
    ← Framing.recordAt]
  by_cases truncated : nlmsg.declaredAt buf nh < 20
  · rw [if_pos truncated, processFamilyMsg, if_pos truncated]
  · rw [if_neg truncated, processFamilyMsg_eq base files (by omega) (by omega)]

end Looks

theorem populateLoop_eq (base : CStr) (files : CStr → OverlayFile) (seq : UInt32)
    (queue : List Datagram) (fails : Option Nat) (buf : Mem) (children : List Family) :
    populateLoop base files seq queue fails buf children =
      receiveMessages (populateMessage base files seq)
        (fun l => (l, ["genl populate: recv failed"])) true queue fails ⟨children, []⟩ :=
  receiveLoop_eq (fun _ => True)
    (fun _ l _ covers short _ => populateBody_eq covers base files seq l short) _ _
    (fun _ _ _ _ => trivial) fails buf _

/-! ## Dumps -/

/-- The message describes a family: it carries a name that fits the buffer and an
identifier. -/
def describesFamily (m : Bytes) : Bool :=
  msgCmd m == ctrlCmdNewfamily &&
    ((nla.frames (msgAttrs m)).any fun f => attrType f == ctrlAttrFamilyName &&
      decide (1 ≤ (payload f).length ∧ (payload f).length ≤ 17)) &&
    ((nla.frames (msgAttrs m)).any fun f => attrType f == ctrlAttrFamilyId &&
      decide (2 ≤ (payload f).length))

/-- The family node of a message. -/
def familyNode (base : CStr) (files : CStr → OverlayFile) (m : Bytes) : Family :=
  (familyLocals m).family base files

theorem haveName_foldl (l : FamilyLocals) (fs : List Bytes) :
    (fs.foldl FamilyLocals.take l).name.2 = (l.name.2 || fs.any fun f =>
      attrType f == ctrlAttrFamilyName &&
        decide (1 ≤ (payload f).length ∧ (payload f).length ≤ 17)) := by
  induction fs generalizing l with
  | nil => simp
  | cons f fs ih =>
      rw [List.foldl_cons, ih, List.any_cons, ← Bool.or_assoc]
      congr 1
      show (takeName l.name f).2 = _
      unfold takeName
      split
      · next found => simp [found.1, found.2.1, found.2.2, Nat.succ_le_iff]
      · next missing =>
          by_cases type : attrType f = ctrlAttrFamilyName
          · have bounds : ¬(1 ≤ (payload f).length ∧ (payload f).length ≤ 17) := fun bounds =>
              missing ⟨type, bounds⟩
            simp only [bounds, decide_false, Bool.and_false, Bool.or_false]
          · rw [beq_eq_false_iff_ne.mpr type, Bool.false_and, Bool.or_false]

theorem haveId_foldl (l : FamilyLocals) (fs : List Bytes) :
    (fs.foldl FamilyLocals.take l).id.2 = (l.id.2 || fs.any fun f =>
      attrType f == ctrlAttrFamilyId && decide (2 ≤ (payload f).length)) := by
  induction fs generalizing l with
  | nil => simp
  | cons f fs ih =>
      rw [List.foldl_cons, ih, List.any_cons, ← Bool.or_assoc]
      congr 1
      show (takeId l.id f).2 = _
      unfold takeId
      split
      · next found => simp [found.1, found.2]
      · next missing =>
          by_cases type : attrType f = ctrlAttrFamilyId
          · have short : ¬2 ≤ (payload f).length := fun long => missing ⟨type, long⟩
            simp only [short, decide_false, Bool.and_false, Bool.or_false]
          · rw [beq_eq_false_iff_ne.mpr type, Bool.false_and, Bool.or_false]

/-- A family is appended for the messages that describe one. -/
theorem familyOf_eq (base : CStr) (files : CStr → OverlayFile) (m : Bytes) :
    familyOf base files m =
      if describesFamily m then some (familyNode base files m) else none := by
  unfold familyOf describesFamily
  rw [familyLocals, haveName_foldl, haveId_foldl]
  simp only [FamilyLocals.zero, Bool.false_or, Bool.and_eq_true, beq_iff_eq, and_assoc]
  rfl

/-- The messages with the sequence number. -/
def ownMessages (seq : UInt32) (ms : List Bytes) : List Bytes := ms.filter fun m => msgSeq m == seq

/-- The datagrams carry a dump that is done: whole messages, among them one that says that
the dump with this number is done, and before it the given messages with this number, none
of which is an error or too short for a generic netlink message. -/
def Delivered (seq : UInt32) (ds : List Datagram) (own : List Bytes) : Prop :=
  ∃ (batches : List (List Bytes)) (before : List Bytes) (done : Bytes) (after : List Bytes),
    List.Forall₂ Datagram.Carries ds batches ∧ (∀ d ∈ ds, d.bytes ≠ []) ∧
      batches.flatten = before ++ done :: after ∧ msgSeq done = seq ∧ msgType done = nlmsgDone ∧
      ownMessages seq before = own ∧
      ∀ m ∈ own, msgType m ≠ nlmsgDone ∧ msgType m ≠ nlmsgError ∧ 20 ≤ m.length

/-- The messages before the end of the dump are run through. -/
theorem foldUntil_populateMessage (base : CStr) (files : CStr → OverlayFile) (seq : UInt32)
    {before : List Bytes} (l : PopulateLocals)
    (regular : ∀ m ∈ ownMessages seq before,
      msgType m ≠ nlmsgDone ∧ msgType m ≠ nlmsgError ∧ 20 ≤ m.length) :
    foldUntil (populateMessage base files seq) l before =
      .ran ⟨l.children ++ ((ownMessages seq before).filter describesFamily).map
        (familyNode base files), l.processed ++ ownMessages seq before⟩ := by
  induction before generalizing l with
  | nil => simp [foldUntil, ownMessages]
  | cons m before ih =>
      by_cases own : msgSeq m = seq
      · have filtered : ownMessages seq (m :: before) = m :: ownMessages seq before := by
          rw [ownMessages, List.filter_cons_of_pos (by simpa using own), ownMessages]
        rw [filtered] at regular ⊢
        obtain ⟨notDone, notError, long⟩ := regular m (by simp)
        have step : populateMessage base files seq l m =
            .next ⟨l.children ++ (familyOf base files m).toList, l.processed ++ [m]⟩ := by
          rw [populateMessage, if_neg (not_not.mpr own), if_neg notDone, if_neg notError,
            if_neg (by omega)]
        rw [foldUntil, step]
        refine (ih _ fun other member => regular other (by simp [member])).trans ?_
        rw [familyOf_eq]
        cases describes : describesFamily m with
        | true => simp [describes]
        | false => simp [describes]
      · have filtered : ownMessages seq (m :: before) = ownMessages seq before := by
          rw [ownMessages, List.filter_cons_of_neg (by simpa using own), ownMessages]
        rw [filtered] at regular ⊢
        rw [foldUntil, populateMessage, if_pos own]
        exact ih l regular

/-- **The enumeration succeeds, and appends one family for each message of the dump that
describes one, in order.** What it appends is the same for all datagrams that deliver
these messages, whatever other messages are among them. -/
theorem populateLoop_delivered (base : CStr) (files : CStr → OverlayFile) (seq : UInt32)
    {ds : List Datagram} {own : List Bytes} (delivered : Delivered seq ds own) (buf : Mem)
    (children : List Family) :
    ∃ left, populateLoop base files seq ds none buf children =
      .stopped ⟨children ++ (own.filter describesFamily).map (familyNode base files), own⟩ left := by
  obtain ⟨batches, before, done, after, carries, nonempty, split, sameSeq, isDone, rfl, regular⟩ :=
    delivered
  have order := receiveMessages_foldUntil (populateMessage base files seq)
    (fun l => (l, ["genl populate: recv failed"])) true (fun _ => nonempty) ⟨children, []⟩
  have last (l : PopulateLocals) : populateMessage base files seq l done = .stop l := by
    rw [populateMessage, if_neg (not_not.mpr sameSeq), if_pos isDone]
  rw [queued_of_carries carries, split, foldUntil_append,
    foldUntil_populateMessage base files seq _ regular] at order
  simp only [foldUntil, last, List.nil_append] at order
  rw [populateLoop_eq]
  exact order

/-- A message of a dump with number 7 that describes a family. -/
def vdpaMessage : Bytes :=
  msg 16 2 7 (genlHeader ctrlCmdNewfamily 2 ++ Framing.encode
    [attr ctrlAttrFamilyName (lit "vdpa" ++ [0]), attr ctrlAttrFamilyId (bytes16 33)])

/-- The end of a dump. -/
def doneMessage (seq : UInt32) : Bytes := msg nlmsgDone 2 seq (bytes32 0)

/-- Two datagrams with the dump, and the end of another one in front of it. -/
def vdpaDump : List Datagram :=
  [⟨Framing.encode [doneMessage 6, vdpaMessage], by decide⟩,
    ⟨Framing.encode [doneMessage 7], by decide⟩]

/-- The family of the dump is appended. -/
theorem populateLoop_vdpa : ∃ left,
    populateLoop [] (fun _ => .absent) 7 vdpaDump none (fun _ => 0) [] =
      .stopped ⟨[familyNode [] (fun _ => .absent) vdpaMessage], [vdpaMessage]⟩ left := by
  have delivered : Delivered 7 vdpaDump [vdpaMessage] :=
    ⟨[[doneMessage 6, vdpaMessage], [doneMessage 7]], [doneMessage 6, vdpaMessage], doneMessage 7, [],
      .cons (Framing.packs_encode (by decide)) (.cons (Framing.packs_encode (by decide)) .nil),
      by decide, rfl, by decide, by decide, by decide, by decide⟩
  have described : [vdpaMessage].filter describesFamily = [vdpaMessage] := by decide +kernel
  have spec := populateLoop_delivered [] (fun _ => .absent) 7 delivered (fun _ => 0) []
  rw [described] at spec
  exact spec

end Ykern.Genl
