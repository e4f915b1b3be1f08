import Ykern.Genl.Exchange

/-!
# The same answer twice

The kernel numbers its replies like the request. What is enumerated does not depend on the
number, nor on what else is on the socket: two enumerations that the kernel answers alike
append the same families and end alike (`nsPopulateChildren_enumerate`).
-/

set_option autoImplicit false

namespace Ykern.Genl

open Overlay Netlink

/-- A reply of the kernel, before it is numbered. -/
structure Reply where
  type : UInt16
  flags : UInt16
  port : UInt32
  body : Bytes

/-- The reply to the request with a number. -/
def Reply.message (seq : UInt32) (r : Reply) : Bytes := msgAt r.type r.flags seq r.port r.body

theorem msgCmd_msg (type flags : UInt16) (seq port : UInt32) (body : Bytes) :
    msgCmd (msgAt type flags seq port body) = body.getD 0 0 := by
  rw [msgCmd, msgAt, List.getD_append_right _ _ _ _ (by rw [length_msgHeader]), length_msgHeader]

/-- What is behind the headers of a message does not depend on its number. -/
theorem msgAttrs_message (seq seq' : UInt32) (r : Reply) :
    msgAttrs (r.message seq) = msgAttrs (r.message seq') := by
  have behind (seq : UInt32) : msgAttrs (r.message seq) = r.body.drop 4 := by
    rw [msgAttrs, Reply.message, msgAt, List.drop_append, length_msgHeader,
      List.drop_eq_nil_of_le (by rw [length_msgHeader]; omega), List.nil_append]
  rw [behind, behind]

/-- Nor does the family that a reply describes. -/
theorem familyOf_message (base : CStr) (files : CStr → OverlayFile) (seq seq' : UInt32)
    (r : Reply) : familyOf base files (r.message seq) = familyOf base files (r.message seq') := by
  have locals : familyLocals (r.message seq) = familyLocals (r.message seq') := by
    rw [familyLocals, familyLocals, msgAttrs_message seq seq']
  have cmd : msgCmd (r.message seq) = msgCmd (r.message seq') := by
    rw [Reply.message, Reply.message, msgCmd_msg, msgCmd_msg]
  rw [familyOf, familyOf, locals, cmd]

/-- The families that are appended for the replies, and how the enumeration ends, if it
does. -/
def enumerate (base : CStr) (files : CStr → OverlayFile) :
    List Reply → List Family × Option (Except Error Unit)
  | [] => ([], none)
  | r :: rs =>
      if r.type = nlmsgDone then ([], some (.ok ()))
      else if r.type = nlmsgError then
        ([], some (.error ["genl populate: kernel returned error"]))
      else if r.body.length < 4 then
        ([], some (.error
          ["genl populate: family processing failed", "genl dump: truncated genlmsghdr"]))
      else
        ((familyOf base files (r.message 0)).toList ++ (enumerate base files rs).1,
          (enumerate base files rs).2)

/-- What the loop comes to, with these children before. -/
def Enumerates (children : List Family) (outcome : List Family × Option (Except Error Unit)) :
    Ended PopulateLocals (PopulateLocals × Error) → Prop
  | .ran _ => outcome.2 = none
  | .stopped l => l.children = children ++ outcome.1 ∧ outcome.2 = some (.ok ())
  | .done r => r.1.children = children ++ outcome.1 ∧ outcome.2 = some (.error r.2)

/-- **The loop comes to what the replies say**, whatever other messages are among them. -/
theorem foldUntil_enumerates (base : CStr) (files : CStr → OverlayFile) (seq : UInt32)
    (ms : List Bytes) {rs : List Reply} (own : ownMessages seq ms = rs.map (Reply.message seq))
    (l : PopulateLocals) :
    Enumerates l.children (enumerate base files rs)
      (foldUntil (populateMessage base files seq) l ms) := by
  induction ms generalizing rs l with
  | nil =>
      obtain rfl := List.map_eq_nil_iff.mp own.symm
      rfl
  | cons m ms ih =>
      rw [foldUntil, populateMessage]
      by_cases numbered : msgSeq m = seq
      · have filtered : ownMessages seq (m :: ms) = m :: ownMessages seq ms :=
          List.filter_cons_of_pos (by simpa using numbered)
        rw [filtered] at own
        obtain ⟨r, rs, rfl, rfl, rest⟩ := List.map_eq_cons_iff.mp own.symm
        have type : msgType (r.message seq) = r.type := msgType_msg _
        have length : (r.message seq).length = 16 + r.body.length := length_msg _
        rw [if_neg (not_not.mpr numbered), enumerate, type, length]
        by_cases done : r.type = nlmsgDone
        · rw [if_pos done, if_pos done]
          exact ⟨(List.append_nil _).symm, rfl⟩
        rw [if_neg done, if_neg done]
        by_cases error : r.type = nlmsgError
        · rw [if_pos error, if_pos error]
          exact ⟨(List.append_nil _).symm, rfl⟩
        rw [if_neg error, if_neg error]
        by_cases short : r.body.length < 4
        · rw [if_pos short, if_pos (by omega)]
          exact ⟨(List.append_nil _).symm, rfl⟩
        rw [if_neg short, if_neg (by omega), familyOf_message base files seq 0]
        have later := ih rest.symm ⟨l.children ++ (familyOf base files (r.message 0)).toList,
          l.processed ++ [r.message seq]⟩
        simp only
        generalize foldUntil (populateMessage base files seq) _ ms = ended at later ⊢
        cases ended with
        | ran _ => exact later
        | stopped _ => exact ⟨later.1.trans (List.append_assoc _ _ _), later.2⟩
        | done _ => exact ⟨later.1.trans (List.append_assoc _ _ _), later.2⟩
      · have filtered : ownMessages seq (m :: ms) = ownMessages seq ms :=
          List.filter_cons_of_neg (by simpa using numbered)
        rw [if_pos numbered]
        exact ih (filtered ▸ own) l

/-- The request is sent, and the kernel answers with these replies: those on the socket with
the number of the request. -/
structure Answered (rs : List Reply) (t : Transport) (env : Env) : Prop where
  opens : t.isOpen = true ∨ env.socketFault = none
  sends : env.sendFails = false
  buffer : env.bufferFails = false
  receives : env.recvFails = none
  whole : ∀ d ∈ t.queue ++ env.answer (dumpRequest (t.seq + 1)), d.bytes ≠ []
  own : ownMessages (t.seq + 1) (queued (t.queue ++ env.answer (dumpRequest (t.seq + 1)))) =
    rs.map (Reply.message (t.seq + 1))

/-- **An enumeration ends as the replies say.** -/
theorem nsPopulateChildren_enumerate {base : CStr} {files : CStr → OverlayFile} {rs : List Reply}
    {t : Transport} {env : Env} (answered : Answered rs t env) {families : List Family}
    {result : Except Error Unit}
    (ended : (nsPopulateChildren base files [] t env).answer = .children families result) :
    enumerate base files rs = (families, some result) := by
  obtain ⟨closed, -⟩ | ⟨-, opened⟩ := socketGet_eq t env.socketFault
  · exact absurd answered.opens closed
  have order := receiveMessages_foldUntil (populateMessage base files (t.seq + 1))
    (fun l => (l, ["genl populate: recv failed"])) true (fun _ => answered.whole) ⟨[], []⟩
  have spec := foldUntil_enumerates base files (t.seq + 1) _ answered.own ⟨[], []⟩
  rw [nsPopulateChildren, opened] at ended
  simp only [nextSeq, answered.sends, answered.buffer, answered.receives, Bool.false_eq_true,
    if_false, populateLoop_eq] at ended
  generalize foldUntil (populateMessage base files (t.seq + 1)) _ _ = last at order spec
  cases last with
  | ran l =>
      rw [order] at ended
      cases ended
  | stopped l =>
      obtain ⟨left, eq⟩ := order
      rw [eq] at ended
      obtain ⟨rfl, rfl⟩ := Answer.children.inj ended
      exact Prod.ext spec.1.symm spec.2
  | done r =>
      obtain ⟨left, eq⟩ := order
      rw [eq] at ended
      obtain ⟨rfl, rfl⟩ := Answer.children.inj ended
      exact Prod.ext spec.1.symm spec.2

end Ykern.Genl
