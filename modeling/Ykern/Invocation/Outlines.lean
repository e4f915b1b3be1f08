import Ykern.Invocation.Dump
import Ykern.Invocation.Nodes
import Ykern.Rtnl.ReplyOutline

/-!
# Answers as outlines

The answer of an operation is an outline: the header, and behind it the entries of a dump with
their count, or below it the one reply (`answerOutline`). The loop behind the request adds the
replies one after the other (`foldUntil_shown`), so what is answered is the outline of the
replies that come up to the end, whatever bytes they have and however they are packed into
datagrams. When nothing in them breaks a line, and no name is taken for the indentation of its
line, the outline is read back from the answer (`invoke_outline`).
-/

set_option autoImplicit false

namespace Ykern.Invocation

open Genl Rtnl Netlink Overlay

/-! ## Outlines -/

/-- What is shown of a reply when there is no set for it. -/
def unnamedText (attrsLen : Int) : Bytes :=
  lit "(response carries " ++ decimalInt attrsLen ++
    lit (" bytes of attributes; " ++ "no ATTRS metadata to decode names — regen overlay)\n")

/-- The outline of a reply in a format. -/
def formatOutline (format : ReplyFormat) (m : Bytes) : Outline Bytes :=
  match format.attrsSet with
  | some set => outlineOf format.overlay (some set) (msgAttrs m)
  | none => .node (unnamedText (m.length - 20)).dropLast .nil .nil

/-- What stands in front of an entry. -/
def entryLine (entry : Nat) : Bytes := lit "--- entry " ++ decimal entry ++ lit " ---\n"

/-- Entries with their numbers, and what is behind them. -/
def entriesOutline (first : Nat) (replies : List (Outline Bytes)) (others : Outline Bytes) :
    Outline Bytes :=
  match replies with
  | [] => others
  | o :: os =>
      .node [] .nil (.node (entryLine first).dropLast o (entriesOutline (first + 1) os others))

namespace InvocationLoop

/-- The outline of a reply. -/
def replyOutline (loop : InvocationLoop) (m : Bytes) : Outline Bytes :=
  match loop with
  | .ethtoolGet _ _ _ _ | .genericGenl _ _ _ => formatOutline (loop.format fun _ => []) m
  | .rtnl op => routeOutline op m

/-- The count behind the entries. -/
def countText (loop : InvocationLoop) (count : Nat) : Bytes :=
  lit "(" ++ decimal count ++ lit " " ++ (if count = 1 then loop.nouns.1 else loop.nouns.2) ++
    lit ")\n"

/-- **The outline of an answer** with these replies. -/
def answerOutline (loop : InvocationLoop) (replies : List (Outline Bytes)) : Outline Bytes :=
  if loop.dumpMode then
    .node loop.header.dropLast .nil (entriesOutline 1 replies
      (.node [] .nil (.node (loop.countText replies.length).dropLast .nil .nil)))
  else .node loop.header.dropLast (replies.headD .nil) .nil

end InvocationLoop

/-! ## The text is that of the outline -/

theorem unnamedText_ends (attrsLen : Int) : (unnamedText attrsLen).getLast? = some 10 :=
  ends_append _ (by decide)

theorem entryLine_ends (entry : Nat) : (entryLine entry).getLast? = some 10 :=
  ends_append _ (by decide)

theorem formatText_outline (format : ReplyFormat) (m : Bytes) :
    Genl.replyText format (msgAttrs m) (m.length - 20) = outlineText 1 (formatOutline format m) := by
  unfold Genl.replyText formatOutline
  cases format.attrsSet with
  | some set => exact streamText_outline _ _ 1 (msgAttrs m)
  | none =>
      dsimp only
      rw [outlineText_node 1 (unnamedText_ends _)]
      simp only [unnamedText, outlineText, Outline.text_nil, List.append_nil, List.append_assoc]
      rfl

/-- An empty line. -/
theorem outlineText_blank (others : Outline Bytes) :
    outlineText 0 (.node [] .nil others) = lit "\n" ++ outlineText 0 others := by
  rw [outlineText, Outline.text_node]
  rfl

namespace InvocationLoop

variable (loop : InvocationLoop)

/-- **A reply is rendered as its outline**, by each of the loops. -/
theorem replyText_outline (m : Bytes) : loop.replyText m = outlineText 1 (loop.replyOutline m) := by
  cases loop with
  | ethtoolGet op family schema args =>
      exact formatText_outline (ethtoolFormat op family schema args fun _ => []) m
  | genericGenl op family args =>
      exact formatText_outline (genericFormat op family args fun _ => []) m
  | rtnl op => exact routeText_outline op m

/-- The heading of an entry does not depend on the texts of error codes. -/
theorem entryHeading_format (strerror : Int → CStr) (entry : Nat) :
    entryHeading (loop.format strerror) entry = entryHeading (loop.format fun _ => []) entry := by
  rw [entryHeading, entryHeading, dumpMode_format, dumpMode_format]

/-- Replies in a dump are shown as numbered entries. -/
theorem entries_outline (dump : loop.dumpMode = true) (first : Nat) (replies : List Bytes)
    (others : Outline Bytes) :
    entries (loop.format fun _ => []) loop.replyText first replies ++ outlineText 0 others =
      outlineText 0 (entriesOutline first (replies.map loop.replyOutline) others) := by
  induction replies generalizing first with
  | nil => rfl
  | cons m replies ih =>
      have heading : entryHeading (loop.format fun _ => []) first =
          lit "\n" ++ (indentText 0 ++ entryLine first) := by
        rw [entryHeading, dumpMode_format, if_pos dump]
        rfl
      rw [List.map_cons, entriesOutline, outlineText_blank,
        outlineText_node 0 (entryLine_ends first), ← ih, ← replyText_outline, entries,
        List.zipIdx_cons, List.flatMap_cons, heading, entries]
      simp only [List.append_assoc]

/-- The first line of an answer. -/
theorem header_ends : loop.header.getLast? = some 10 := by
  cases loop <;> exact ends_append _ (by decide)

/-- What a loop holds when replies were shown behind a text. -/
def shown (l : InvokeLocals) (replies : List Bytes) : InvokeLocals where
  text := l.text ++ entries (loop.format fun _ => []) loop.replyText (l.replyCount + 1) replies
  replyCount := l.replyCount + replies.length
  rendered := l.rendered ++ replies

theorem shown_nil (l : InvokeLocals) : loop.shown l [] = l := by
  obtain ⟨text, replyCount, rendered⟩ := l
  simp [shown, entries]

theorem shown_append (l : InvokeLocals) (first later : List Bytes) :
    loop.shown l (first ++ later) = loop.shown (loop.shown l first) later := by
  simp only [shown, entries, List.zipIdx_append, List.flatMap_append, List.length_append,
    List.append_assoc, Nat.add_assoc, Nat.add_comm 1]

/-! ## One message after the other -/

/-- **A message that is no error is shown if it is a reply**, and may be the end. -/
theorem message_shown (strerror : Int → CStr) (l : InvokeLocals) {m : Bytes}
    (noError : kernelFails m = false) :
    loop.message strerror l m =
      if loop.ends m then .stop (loop.shown l ([m].filter isReply))
      else .next (loop.shown l ([m].filter isReply)) := by
  by_cases done : msgType m = nlmsgDone
  · have noReply : isReply m = false := by simp [isReply, done]
    have isEnd : loop.ends m = true := by simp [ends, invokeEnds, done]
    rw [if_pos isEnd, message, if_pos done, List.filter_cons_of_neg (by simp [noReply])]
    exact congrArg _ (loop.shown_nil l).symm
  by_cases error : msgType m = nlmsgError
  · -- Only an acknowledgement is no error.
    have code : msgError m = 0 := by simpa [kernelFails, error] using noError
    have noReply : isReply m = false := by simp [isReply, error]
    have goesOn : loop.ends m = false := by simp [ends, invokeEnds, done, code, noReply]
    rw [if_neg (by simp [goesOn]), message, if_neg done, if_pos error, if_pos code,
      List.filter_cons_of_neg (by simp [noReply])]
    exact congrArg _ (loop.shown_nil l).symm
  · have reply : isReply m = true := isReply_iff.mpr ⟨done, error⟩
    have ending : loop.ends m = !loop.dumpMode := by simp [ends, invokeEnds, done, error, reply]
    have added : loop.shown l ([m].filter isReply) =
        ⟨l.text ++ entryHeading (loop.format strerror) (l.replyCount + 1) ++ loop.replyText m,
          l.replyCount + 1, l.rendered ++ [m]⟩ := by
      rw [List.filter_cons_of_pos reply, List.filter_nil, shown, entryHeading_format]
      simp [entries]
    rw [message, if_neg done, if_neg error, replyRendered, dumpMode_format, ending, added]
    cases loop.dumpMode <;> rfl

/-- **A loop shows the replies up to the end.** -/
theorem foldUntil_shown (strerror : Int → CStr) (l : InvokeLocals) {ms : List Bytes}
    (ended : ms.any loop.ends = true) (noError : ∀ m ∈ upTo loop.ends ms, kernelFails m = false) :
    foldUntil (loop.message strerror) l ms =
      .stopped (loop.shown l ((upTo loop.ends ms).filter isReply)) := by
  induction ms generalizing l with
  | nil => cases ended
  | cons m ms ih =>
      rw [upTo] at noError ⊢
      cases isEnd : loop.ends m with
      | true =>
          rw [isEnd, if_pos rfl] at noError
          rw [foldUntil, message_shown loop strerror l (noError m (List.mem_singleton_self m)),
            isEnd, if_pos rfl, if_pos rfl]
      | false =>
          rw [isEnd, if_neg Bool.false_ne_true] at noError
          rw [List.any_cons, isEnd, Bool.false_or] at ended
          obtain ⟨first, later⟩ := List.forall_mem_cons.mp noError
          rw [foldUntil, message_shown loop strerror l first, isEnd, if_neg Bool.false_ne_true,
            if_neg Bool.false_ne_true]
          dsimp only
          rw [ih _ ended later, ← shown_append, ← List.filter_append, List.singleton_append]

/-- Without a dump a loop shows one reply at most. -/
theorem replies_le_one (single : loop.dumpMode = false) (ms : List Bytes) :
    ((upTo loop.ends ms).filter isReply).length ≤ 1 := by
  induction ms with
  | nil => exact Nat.zero_le 1
  | cons m ms ih =>
      rw [upTo]
      cases isEnd : loop.ends m with
      | true =>
          rw [if_pos rfl]
          exact List.length_filter_le _ _
      | false =>
          have noReply : isReply m = false := by
            by_contra reply
            simp [ends, invokeEnds, single, Bool.eq_true_of_not_eq_false reply] at isEnd
          rw [if_neg Bool.false_ne_true, List.filter_cons_of_neg (by simp [noReply])]
          exact ih

theorem countText_ends (count : Nat) : (loop.countText count).getLast? = some 10 :=
  ends_append _ (by decide)

/-- **The text that is left is that of the outline.** -/
theorem finish_shown {replies : List Bytes}
    (single : loop.dumpMode = false → replies.length ≤ 1) :
    loop.finish (loop.shown ⟨loop.header, 0, []⟩ replies) =
      outlineText 0 (loop.answerOutline (replies.map loop.replyOutline)) := by
  have text : loop.finish (loop.shown ⟨loop.header, 0, []⟩ replies) =
      loop.header ++ entries (loop.format fun _ => []) loop.replyText 1 replies ++
        if loop.dumpMode then lit "\n" ++ loop.countText replies.length else [] := by
    simp only [finish, invokeText, shown, dumpMode_format, countText, Nat.zero_add]
    simp only [List.append_assoc]
    rfl
  rw [text, answerOutline]
  cases dump : loop.dumpMode with
  | true =>
      have count : outlineText 0 (.node (loop.countText replies.length).dropLast .nil .nil) =
          loop.countText replies.length := by
        rw [outlineText_node 0 (loop.countText_ends _)]
        simp [outlineText, indentText]
      rw [if_pos rfl, if_pos rfl, outlineText_node 0 loop.header_ends,
        ← loop.entries_outline dump, outlineText_blank, List.length_map, count]
      simp [outlineText, indentText]
  | false =>
      rw [if_neg Bool.false_ne_true, if_neg Bool.false_ne_true,
        outlineText_node 0 loop.header_ends]
      have short := single dump
      rcases replies with _ | ⟨m, _ | ⟨_, _⟩⟩
      · simp [entries, outlineText, indentText]
      · have heading : entryHeading (loop.format fun _ => []) 1 = [] := by
          rw [entryHeading, dumpMode_format, dump]
          rfl
        simp [entries, heading, replyText_outline, indentText, outlineText]
      · exact absurd short (by simp)

/-- **An answer is the outline of the replies up to the end**, when these are whole and no
error of the kernel is among them. -/
theorem answer_outline (env : RtnlEnv) {arrivals : List Arrival} (receives : env.recvFails = none)
    (ended : (queued (arrivals.map Arrival.datagram)).any loop.ends = true)
    (whole : ∀ m ∈ upTo loop.ends (queued (arrivals.map Arrival.datagram)), loop.Whole m)
    (noError : ∀ m ∈ upTo loop.ends (queued (arrivals.map Arrival.datagram)),
      kernelFails m = false) :
    loop.answer env arrivals = .text (.ok (outlineText 0 (loop.answerOutline
      (((upTo loop.ends (queued (arrivals.map Arrival.datagram))).filter isReply).map
        loop.replyOutline)))) := by
  have read : loop.receive env arrivals = _ := loop.receive_eq env fun m member => by
    rw [receives, reading_none] at member
    exact whole m member
  have order := receiveMessages_foldUntil (loop.message env.strerror)
    (fun l => (l, loop.recvFailed env)) false
    (show false = true → ∀ d ∈ arrivals.map Arrival.datagram, d.bytes ≠ [] by nofun)
    ⟨loop.header, 0, []⟩
  rw [loop.foldUntil_shown env.strerror _ ended noError] at order
  obtain ⟨left, result⟩ := order
  rw [answer, read, receives, result]
  exact congrArg (fun text => Answer.text (.ok text))
    (loop.finish_shown fun single => loop.replies_le_one single _)

/-! ## Reading an answer back -/

/-- The names of a loop leave the lines as they are: those in the first line, and those in the
sets replies are rendered with. -/
structure PlainNames : Prop where
  header : PlainLabel loop.header.dropLast
  overlay : PlainOverlay (loop.format fun _ => []).overlay
  set : PlainSet (loop.format fun _ => []).attrsSet

/-- The names and strings in a reply have no end of line. -/
def PlainReply (m : Bytes) : Prop :=
  match loop with
  | .rtnl op => PlainStrings op m
  | _ =>
      let format := loop.format fun _ => []
      PlainEntries format.overlay format.attrsSet
        (readAttrs (setNesting format.overlay) format.attrsSet (msgAttrs m))

end InvocationLoop

theorem unnamedText_plain (attrsLen : Int) : PlainLabel (unnamedText attrsLen).dropLast := by
  have number : (10 : UInt8) ∉ decimalInt attrsLen := notMem_decimalInt attrsLen
  rw [unnamedText, List.dropLast_append_of_ne_nil (by decide)]
  refine ⟨notMem_append (notMem_append (by decide) number) (by decide), ?_⟩
  rw [List.append_assoc]
  exact not_indented_append _ (by decide) (by decide)

theorem entryLine_plain (entry : Nat) : PlainLabel (entryLine entry).dropLast := by
  rw [entryLine, List.dropLast_append_of_ne_nil (by decide)]
  refine ⟨notMem_append (notMem_append (by decide) (notMem_decimal (by decide) entry))
    (by decide), ?_⟩
  rw [List.append_assoc]
  exact not_indented_append _ (by decide) (by decide)

theorem formatOutline_plain {format : ReplyFormat} {m : Bytes}
    (overlay : PlainOverlay format.overlay) (set : PlainSet format.attrsSet)
    (entries : PlainEntries format.overlay format.attrsSet
      (readAttrs (setNesting format.overlay) format.attrsSet (msgAttrs m))) :
    ∀ label ∈ (formatOutline format m).labels, PlainLabel label := by
  unfold formatOutline
  cases isSet : format.attrsSet with
  | some s =>
      rw [isSet] at set entries
      exact attrOutline_plain overlay set entries
  | none =>
      intro label member
      rw [List.mem_singleton.mp member]
      exact unnamedText_plain _

theorem entriesOutline_plain {first : Nat} {replies : List (Outline Bytes)} {others : Outline Bytes}
    (plain : ∀ o ∈ replies, ∀ label ∈ o.labels, PlainLabel label)
    (plainOthers : ∀ label ∈ others.labels, PlainLabel label) :
    ∀ label ∈ (entriesOutline first replies others).labels, PlainLabel label := by
  induction replies generalizing first with
  | nil => exact plainOthers
  | cons o os ih =>
      obtain ⟨own, later⟩ := List.forall_mem_cons.mp plain
      intro label member
      rcases List.mem_cons.mp member with rfl | member
      · exact ⟨List.not_mem_nil, by decide⟩
      rcases List.mem_cons.mp member with rfl | member
      · exact entryLine_plain first
      rcases List.mem_append.mp member with inner | outer
      · exact own label inner
      · exact ih later label outer

namespace InvocationLoop

variable (loop : InvocationLoop)

theorem countText_plain (count : Nat) : PlainLabel (loop.countText count).dropLast := by
  have words : loop.nouns = (lit "interface", lit "interfaces") ∨
      loop.nouns = (lit "object", lit "objects") := by
    cases loop with
    | ethtoolGet op family schema args => exact .inl rfl
    | genericGenl op family args => exact .inr rfl
    | rtnl op => exact .inr rfl
  have nouns : (10 : UInt8) ∉ loop.nouns.1 ∧ (10 : UInt8) ∉ loop.nouns.2 := by
    rcases words with same | same
    · rw [same]
      decide
    · rw [same]
      decide
  have noun : (10 : UInt8) ∉ (if count = 1 then loop.nouns.1 else loop.nouns.2) := by
    split
    · exact nouns.1
    · exact nouns.2
  rw [countText, List.dropLast_append_of_ne_nil (by decide)]
  refine ⟨notMem_append (notMem_append (notMem_append (notMem_append (by decide)
    (notMem_decimal (by decide) count)) (by decide)) noun) (by decide), ?_⟩
  simp only [List.append_assoc]
  intro indented
  exact absurd (List.cons_prefix_cons.mp indented).1 (by decide)

theorem replyOutline_plain {m : Bytes} (names : loop.PlainNames) (plain : loop.PlainReply m) :
    ∀ label ∈ (loop.replyOutline m).labels, PlainLabel label := by
  cases loop with
  | ethtoolGet op family schema args => exact formatOutline_plain names.overlay names.set plain
  | genericGenl op family args => exact formatOutline_plain names.overlay names.set plain
  | rtnl op => exact routeOutline_plain plain

/-- **Every label of an answer is a line of its own.** -/
theorem answerOutline_plain (names : loop.PlainNames) {replies : List (Outline Bytes)}
    (plain : ∀ o ∈ replies, ∀ label ∈ o.labels, PlainLabel label) :
    ∀ label ∈ (loop.answerOutline replies).labels, PlainLabel label := by
  unfold answerOutline
  split
  · intro label member
    rcases List.mem_cons.mp member with rfl | member
    · exact names.header
    · refine entriesOutline_plain plain ?_ label member
      intro label member
      rcases List.mem_cons.mp member with rfl | member
      · exact ⟨List.not_mem_nil, by decide⟩
      · rw [List.mem_singleton.mp member]
        exact loop.countText_plain _
  · intro label member
    rcases List.mem_cons.mp member with rfl | member
    · exact names.header
    rcases List.mem_append.mp member with inner | outer
    · cases replies with
      | nil => cases inner
      | cons o os => exact plain o List.mem_cons_self label inner
    · cases outer

end InvocationLoop

/-- **What the kernel sends is shown as an outline that can be read back.** When a request
reaches the kernel and the messages up to the end of the loop behind it are whole and without
an error, the answer is the text of the outline of the replies among them. When nothing in
the names and replies breaks a line and no name starts with a space, reading the answer gives
this outline. -/
theorem invoke_outline {node : OpNode} {args : InvokeArgs} {env : RtnlEnv} {m : Bytes}
    {loop : InvocationLoop} (sent : node.attempt args = .send m) (reaches : node.Reaches env)
    (enters : node.loop args = some loop) (receives : env.recvFails = none)
    (ended : (queued (node.stream env m)).any loop.ends = true)
    (whole : ∀ r ∈ upTo loop.ends (queued (node.stream env m)), loop.Whole r)
    (noError : ∀ r ∈ upTo loop.ends (queued (node.stream env m)), kernelFails r = false) :
    let replies := (upTo loop.ends (queued (node.stream env m))).filter isReply
    let outline := loop.answerOutline (replies.map loop.replyOutline)
    node.invoke args env = .text (.ok (outlineText 0 outline)) ∧
      (loop.PlainNames → (∀ r ∈ replies, loop.PlainReply r) →
        readOutline 0 (outlineText 0 outline) = some outline) := by
  obtain ⟨entered, enters', -, answered⟩ := OpNode.invoke_loop sent reaches
  obtain rfl := Option.some.inj (enters'.symm.trans enters)
  have datagrams := datagrams_arrivalsIn env.buf (node.stream env m)
  rw [← datagrams] at ended whole noError
  have shown := entered.answer_outline env receives ended whole noError
  rw [datagrams] at shown
  refine ⟨answered.trans shown, fun names plain => ?_⟩
  refine Outline.readText_text (by decide) (by decide) (entered.answerOutline_plain names ?_) 0
  intro o member
  obtain ⟨r, isReply, rfl⟩ := List.mem_map.mp member
  exact entered.replyOutline_plain names (plain r isReply)

/-- The name of the loopback device, and its MTU. -/
def loopbackAttrs : List Bytes := [attr 3 (lit "lo" ++ [0]), attr 4 (bytes32 65536)]

/-- A reply about the loopback device, with these attributes behind its `ifinfomsg`. -/
def loopbackReply : Bytes :=
  msgAt rtmNewlink 2 1 4711
    ([0, 0, 4, 3, 1, 0, 0, 0, 0x49, 0, 1, 0, 0, 0, 0, 0] ++ Framing.encode loopbackAttrs)

/-- What the dump of the links meets when there is only the loopback device. -/
def loopbackEnv : RtnlEnv :=
  { linkEnv with answer := fun _ => [⟨loopbackReply, by decide⟩, ⟨linkDone, by decide⟩] }

/-- The outline of the answer. -/
def loopbackOutline : Outline Bytes :=
  (InvocationLoop.rtnl .getLink).answerOutline [routeOutline .getLink loopbackReply]

/-- The outline of the dump of one link is read back from the answer. -/
theorem loopback_shown :
    (OpNode.rtnl .getLink ⟨false, 0, []⟩).invoke [] loopbackEnv =
        .text (.ok (outlineText 0 loopbackOutline)) ∧
      readOutline 0 (outlineText 0 loopbackOutline) = some loopbackOutline := by
  have alone {m : Bytes} (isFrame : nlmsg.IsFrame m) : Framing.Packs nlmsg [m] m := by
    have packs := Framing.Packs.last isFrame (show ([] : Bytes).length ≤ _ from Nat.zero_le _)
    rwa [List.append_nil] at packs
  have messages : queued ((OpNode.rtnl .getLink ⟨false, 0, []⟩).stream loopbackEnv
      (rtnlRequest .getLink 1)) = [loopbackReply, linkDone] :=
    queued_of_carries (.cons (alone (msg_isFrame (by decide)))
      (.cons (alone (msg_isFrame (by decide))) .nil))
  have read : upTo (InvocationLoop.rtnl .getLink).ends [loopbackReply, linkDone] =
      [loopbackReply, linkDone] := by decide
  have replies : [loopbackReply, linkDone].filter isReply = [loopbackReply] := by decide
  have sent : (OpNode.rtnl .getLink ⟨false, 0, []⟩).attempt [] =
      .send (rtnlRequest .getLink 1) := rfl
  have reaches : (OpNode.rtnl .getLink ⟨false, 0, []⟩).Reaches loopbackEnv := ⟨.inr rfl, rfl⟩
  have whole : ∀ r ∈ [loopbackReply, linkDone], (InvocationLoop.rtnl .getLink).Whole r := by
    intro r member
    rcases List.mem_pair.mp member with rfl | rfl
    · exact ⟨by decide, by decide⟩
    · exact ⟨by decide, by decide⟩
  have shown := invoke_outline sent reaches rfl rfl (by rw [messages]; decide)
    (by rwa [messages, read]) (by rw [messages, read]; decide)
  rw [messages, read, replies] at shown
  refine ⟨shown.1, shown.2 ⟨⟨by decide, by decide⟩, nofun, nofun⟩ ?_⟩
  intro r member
  rw [List.mem_singleton.mp member]
  have attrs : nla.frames (loopbackReply.drop (16 + align4 (rtnlOps .getLink).hdrSkip)) =
      loopbackAttrs := by
    have behind : loopbackReply.drop (16 + align4 (rtnlOps .getLink).hdrSkip) =
        Framing.encode loopbackAttrs := by decide
    rw [behind]
    refine Framing.frames_encode fun f member => ?_
    rcases List.mem_pair.mp member with rfl | rfl
    · exact ⟨by decide, by decide⟩
    · exact ⟨by decide, by decide⟩
  show PlainStrings .getLink loopbackReply
  rw [PlainStrings, attrs]
  decide

end Ykern.Invocation
