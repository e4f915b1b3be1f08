import Ykern.Netlink.Receive

/-!
# How far receiving reads

A receive loop ends with the first message of certain kinds. It has then read the
datagrams up to the one with this message; what follows the message in its datagram is
lost, and what follows the datagram stays in the queue (`reading`).

An answer is read as a whole, with every reply in it handled, exactly when no datagram
follows one with an ending message, no reply follows an ending message, `recv` does not
fail before the last datagram was read, and the loop handles every kind of reply that is
in it (`reading_whole_iff`). How receiving ended depends on less: a loop whose body leaves it
at the ending messages is over exactly when one of them is received
(`EndsAt.receiveArrivals`).
-/

set_option autoImplicit false

namespace Ykern.Netlink

/-- A message that is neither the end of a dump nor about an error. -/
def isReply (m : Bytes) : Bool := msgType m != nlmsgDone && msgType m != nlmsgError

/-! ## Reading -/

section Reading

variable (ends : Bytes → Bool)

/-- The messages up to the first that ends the loop. -/
def upTo : List Bytes → List Bytes
  | [] => []
  | m :: ms => if ends m then [m] else m :: upTo ms

/-- The messages that are read, and the datagrams that are left. -/
def reading (fails : Option Nat) (ds : List Datagram) : List Bytes × List Datagram :=
  if fails = some 0 then ([], ds)
  else
    match ds with
    | [] => ([], [])
    | d :: ds =>
        if d.messages.any ends then (upTo ends d.messages, ds)
        else
          let rest := reading (fails.map (· - 1)) ds
          (d.messages ++ rest.1, rest.2)

theorem upTo_sublist (ms : List Bytes) : (upTo ends ms).Sublist ms := by
  induction ms with
  | nil => exact .slnil
  | cons m ms ih =>
      rw [upTo]
      split
      · simp
      · exact ih.cons_cons m

@[simp] theorem reading_nil (fails : Option Nat) : reading ends fails [] = ([], []) := by
  rw [reading]
  split <;> rfl

theorem reading_failed (ds : List Datagram) : reading ends (some 0) ds = ([], ds) := by
  unfold reading
  rw [if_pos rfl]

theorem reading_sublist (fails : Option Nat) (ds : List Datagram) :
    (reading ends fails ds).1.Sublist (queued ds) := by
  induction ds generalizing fails with
  | nil =>
      rw [reading_nil]
      exact .slnil
  | cons d ds ih =>
      rw [reading, queued_cons]
      split
      · exact List.nil_sublist _
      split
      · exact (upTo_sublist ends _).trans (List.sublist_append_left _ _)
      · exact (List.Sublist.refl _).append (ih _)

/-- The end is looked for in the first messages, and then in the others. -/
theorem upTo_append (ms later : List Bytes) :
    upTo ends (ms ++ later) = if ms.any ends then upTo ends ms else ms ++ upTo ends later := by
  induction ms with
  | nil => rfl
  | cons m ms ih =>
      rw [List.cons_append, upTo, ih, upTo, List.any_cons]
      cases ends m with
      | true => rfl
      | false =>
          rw [Bool.false_or, if_neg Bool.false_ne_true, if_neg Bool.false_ne_true]
          split <;> rfl

/-- When no `recv` fails, the messages up to the first that ends the loop are read. -/
theorem reading_none (ds : List Datagram) :
    (reading ends none ds).1 = upTo ends (queued ds) := by
  induction ds with
  | nil =>
      rw [reading_nil]
      rfl
  | cons d ds ih =>
      rw [reading, if_neg nofun, queued_cons, upTo_append]
      split
      · rfl
      · exact congrArg (d.messages ++ ·) ih

/-- What is left is the end of the queue. -/
theorem reading_suffix (fails : Option Nat) (ds : List Datagram) :
    (reading ends fails ds).2 <:+ ds := by
  induction ds generalizing fails with
  | nil => simp
  | cons d ds ih =>
      rw [reading]
      split
      · exact List.suffix_refl _
      split
      · exact List.suffix_cons d ds
      · exact (ih _).trans (List.suffix_cons d ds)

end Reading

/-! ## Loops over what is read -/

section Arrivals

variable {σ ρ : Type} {ends : Bytes → Bool} {good : Bytes → Prop}
  {record : σ → Bytes → Control σ ρ}

/-- A loop that is left at the ending messages depends only on the messages up to the first. -/
theorem foldUntil_upTo {body : σ → Nat → Control σ ρ} {f : Nat → Bytes}
    (leaves : ∀ s m, good m → ends m = true → ∀ s', record s m ≠ .next s') {xs : List Nat}
    (looks : ∀ s, ∀ x ∈ xs, good (f x) → body s x = record s (f x))
    (allGood : ∀ m ∈ upTo ends (xs.map f), good m) (s : σ) :
    foldUntil body s xs = foldUntil record s (xs.map f) := by
  induction xs generalizing s with
  | nil => rfl
  | cons x xs ih =>
      rw [List.map_cons, upTo] at allGood
      have goodX : good (f x) := by
        apply allGood
        split <;> simp
      rw [List.map_cons, foldUntil, foldUntil, looks s x (by simp) goodX]
      cases effect : record s (f x) with
      | next s' =>
          cases isEnd : ends (f x) with
          | true => exact absurd effect (leaves s (f x) goodX isEnd s')
          | false =>
              rw [isEnd, if_neg Bool.false_ne_true] at allGood
              refine ih (fun s y member => looks s y (by simp [member])) ?_ s'
              intro m member
              exact allGood m (List.mem_cons_of_mem _ member)
      | stop s' => rfl
      | done r => rfl

/-- A loop that was run to its end met no ending message. -/
theorem any_ends_of_ran (leaves : ∀ s m, good m → ends m = true → ∀ s', record s m ≠ .next s')
    {ms : List Bytes} (allGood : ∀ m ∈ upTo ends ms, good m) {s s' : σ}
    (ran : foldUntil record s ms = .ran s') : ms.any ends = false := by
  induction ms generalizing s with
  | nil => rfl
  | cons m ms ih =>
      rw [upTo] at allGood
      rw [foldUntil] at ran
      cases effect : record s m with
      | next s'' =>
          have goodM : good m := by
            apply allGood
            split <;> simp
          have goesOn : ends m = false :=
            Bool.eq_false_iff.mpr fun isEnd => leaves s m goodM isEnd s'' effect
          rw [goesOn, if_neg Bool.false_ne_true] at allGood
          rw [effect] at ran
          rw [List.any_cons, goesOn, Bool.false_or]
          exact ih (fun m' member => allGood m' (List.mem_cons_of_mem _ member)) ran
      | stop s'' => rw [effect] at ran; cases ran
      | done r => rw [effect] at ran; cases ran

theorem upTo_eq_self {ms : List Bytes} (none : ms.any ends = false) : upTo ends ms = ms := by
  induction ms with
  | nil => rfl
  | cons m ms ih =>
      rw [List.any_cons, Bool.or_eq_false_iff] at none
      rw [upTo, none.1, if_neg Bool.false_ne_true, ih none.2]

/-- **Receiving depends only on the messages that are read**, whatever is behind them. -/
theorem receiveArrivals_eq {body : Mem → σ → Nat → Control σ ρ}
    (leaves : ∀ s m, good m → ends m = true → ∀ s', record s m ≠ .next s')
    (looks : ∀ (buf : Mem) (s : σ) (a : Nat), 16 ≤ nlmsg.declaredAt buf a →
      nlmsg.declaredAt buf a ≤ 65536 → good (nlmsg.recordAt buf a) →
      body buf s a = record s (nlmsg.recordAt buf a))
    (failed : σ → ρ) {arrivals : List Arrival} {fails : Option Nat}
    (allGood : ∀ m ∈ (reading ends fails (arrivals.map Arrival.datagram)).1, good m) (s : σ) :
    receiveArrivals body failed arrivals fails s =
      receiveMessages record failed false (arrivals.map Arrival.datagram) fails s := by
  induction arrivals generalizing fails s with
  | nil => rw [receiveArrivals, List.map_nil, receiveMessages]
  | cons a arrivals ih =>
      rw [receiveArrivals, List.map_cons, receiveMessages,
        if_neg (show ¬(false = true ∧ a.datagram.bytes = []) by simp)]
      by_cases failsNow : fails = some 0
      · rw [if_pos failsNow, if_pos failsNow]
      rw [if_neg failsNow, if_neg failsNow]
      rw [List.map_cons, reading, if_neg failsNow] at allGood
      have visited := a.walk_messages
      have first : ∀ m ∈ upTo ends a.datagram.messages, good m := by
        intro m member
        apply allGood m
        split
        · exact member
        · next none =>
            rw [upTo_eq_self (Bool.eq_false_iff.mpr none)] at member
            exact List.mem_append_left _ member
      have walked : foldUntil (body a.buf) s (nlmsg.walk a.buf 0 a.datagram.bytes.length) =
          foldUntil record s a.datagram.messages := by
        rw [← visited]
        refine foldUntil_upTo leaves ?_ (by rw [visited]; exact first) s
        intro s p member
        obtain ⟨covers, short, -⟩ := Datagram.mem_walk member
        exact looks a.buf s p covers short
      rw [walked]
      cases ended : foldUntil record s a.datagram.messages with
      | stopped s' => rfl
      | done r => rfl
      | ran s' =>
          rw [any_ends_of_ran leaves first ended, if_neg Bool.false_ne_true] at allGood
          exact ih (fun m member => allGood m (List.mem_append_right _ member)) s'

end Arrivals

/-! ## Whole answers -/

/-- The answer is read as a whole: no datagram follows one that ends the loop, no reply
follows a message that ends it, `recv` does not fail before the last datagram, and the loop
handles all replies. -/
structure Conclusive (ends handles : Bytes → Bool) (fails : Option Nat) (ds : List Datagram) :
    Prop where
  last : ds.Pairwise fun d _ => ∀ m ∈ d.messages, ends m = false
  silent : (queued ds).Pairwise fun m r => ends m = true → isReply r = false
  lasts : ∀ n, fails = some n → ds.length ≤ n
  handled : ∀ m ∈ queued ds, isReply m = true → handles m = true

/-- Part of a list has all that a weaker filter leaves of the list exactly if it has all
that the filter leaves, and the filters agree on the list. -/
theorem filter_eq_filter_iff {p q : Bytes → Bool} (weaker : ∀ m, p m = true → q m = true)
    {part whole : List Bytes} (sublist : part.Sublist whole) :
    part.filter p = whole.filter q ↔
      part.filter q = whole.filter q ∧ ∀ m ∈ whole, q m = true → p m = true := by
  have stronger : (part.filter p).Sublist (part.filter q) := List.monotone_filter_right part weaker
  have smaller : (part.filter q).Sublist (whole.filter q) := sublist.filter q
  constructor
  · intro same
    refine ⟨smaller.eq_of_length_le (same ▸ stronger.length_le), ?_⟩
    intro m member passes
    have kept : m ∈ part.filter p := same ▸ List.mem_filter.mpr ⟨member, passes⟩
    exact (List.mem_filter.mp kept).2
  · rintro ⟨same, agree⟩
    rw [← same]
    refine List.filter_congr ?_
    intro m member
    cases passes : q m with
    | true => exact agree m (sublist.subset member) passes
    | false => exact Bool.eq_false_iff.mpr fun strong => by simp [weaker m strong] at passes

/-- What is read of a datagram has all replies exactly if none follows the end. -/
theorem upTo_replies_iff (ends : Bytes → Bool) (ms : List Bytes) :
    (upTo ends ms).filter isReply = ms.filter isReply ↔
      ms.Pairwise fun m r => ends m = true → isReply r = false := by
  induction ms with
  | nil => simp [upTo]
  | cons m ms ih =>
      rw [upTo, List.pairwise_cons]
      cases isEnd : ends m with
      | true =>
          have rest : [m].filter isReply = (m :: ms).filter isReply ↔ ms.filter isReply = [] := by
            rw [← List.singleton_append (l := ms), List.filter_append, List.self_eq_append_right]
          rw [if_pos rfl, rest, List.filter_eq_nil_iff]
          constructor
          · intro none
            have silent : ∀ r ∈ ms, isReply r = false := fun r member =>
              Bool.eq_false_iff.mpr (none r member)
            exact ⟨fun r member _ => silent r member,
              List.pairwise_of_forall_mem_list fun _ _ r member _ => silent r member⟩
          · rintro ⟨silent, _⟩ r member
            rw [silent r member rfl]
            exact Bool.false_ne_true
      | false =>
          rw [if_neg Bool.false_ne_true, ← List.singleton_append (l := upTo ends ms),
            ← List.singleton_append (l := ms), List.filter_append, List.filter_append,
            List.append_cancel_left_eq, ih]
          exact ⟨fun silent => ⟨fun _ _ ended => absurd ended Bool.false_ne_true, silent⟩, And.right⟩

/-- All replies are read and nothing is left. -/
theorem reading_replies_iff (ends : Bytes → Bool) (fails : Option Nat) (ds : List Datagram) :
    (reading ends fails ds).1.filter isReply = (queued ds).filter isReply ∧
        (reading ends fails ds).2 = [] ↔
      (ds.Pairwise fun d _ => ∀ m ∈ d.messages, ends m = false) ∧
        ((queued ds).Pairwise fun m r => ends m = true → isReply r = false) ∧
        ∀ n, fails = some n → ds.length ≤ n := by
  induction ds generalizing fails with
  | nil => simp
  | cons d ds ih =>
      rw [reading]
      by_cases failsNow : fails = some 0
      · rw [if_pos failsNow]
        refine ⟨fun read => absurd read.2 (List.cons_ne_nil _ _), ?_⟩
        intro whole
        exact absurd (whole.2.2 0 failsNow) (by simp)
      rw [if_neg failsNow]
      cases isEnd : d.messages.any ends with
      | true =>
          rw [if_pos rfl, queued_cons]
          have isLast : (∀ m ∈ d.messages, ends m = false) → False := fun none => by
            rw [List.any_eq_false.mpr fun m member => by simp [none m member]] at isEnd
            cases isEnd
          constructor
          · rintro ⟨read, rfl⟩
            rw [queued_nil, List.append_nil] at read ⊢
            refine ⟨List.pairwise_singleton _ _, (upTo_replies_iff ends _).mp read, ?_⟩
            intro n failsLater
            have notZero : n ≠ 0 := fun zero => failsNow (zero ▸ failsLater)
            rw [List.length_singleton]
            omega
          · rintro ⟨last, silent, _⟩
            have none : ds = [] := List.eq_nil_iff_forall_not_mem.mpr fun d' member =>
              isLast ((List.pairwise_cons.mp last).1 d' member)
            subst none
            rw [queued_nil, List.append_nil] at silent ⊢
            exact ⟨(upTo_replies_iff ends _).mpr silent, rfl⟩
      | false =>
          rw [if_neg Bool.false_ne_true, queued_cons, List.filter_append, List.filter_append,
            List.append_cancel_left_eq, ih]
          have goesOn : ∀ m ∈ d.messages, ends m = false := by simpa using isEnd
          rw [List.pairwise_cons, List.pairwise_append]
          constructor
          · rintro ⟨last, silent, lasts⟩
            refine ⟨⟨fun _ _ => goesOn, last⟩, ⟨?_, silent, ?_⟩, ?_⟩
            · exact List.pairwise_of_forall_mem_list fun m member _ _ isEnd' =>
                absurd isEnd' (by simp [goesOn m member])
            · exact fun m member _ _ isEnd' => absurd isEnd' (by simp [goesOn m member])
            · intro n failsLater
              have left := lasts (n - 1) (by rw [failsLater, Option.map_some])
              have notZero : n ≠ 0 := fun zero => failsNow (zero ▸ failsLater)
              rw [List.length_cons]
              omega
          · rintro ⟨⟨_, last⟩, ⟨_, silent, _⟩, lasts⟩
            refine ⟨last, silent, ?_⟩
            intro n failsLater
            obtain ⟨n', failsNext, rfl⟩ := Option.map_eq_some_iff.mp failsLater
            have left := lasts n' failsNext
            rw [List.length_cons] at left
            omega

/-- **The answer is handled as a whole exactly when it is conclusive.** -/
theorem reading_whole_iff {ends handles : Bytes → Bool}
    (onlyReplies : ∀ m, handles m = true → isReply m = true) (fails : Option Nat)
    (ds : List Datagram) :
    (reading ends fails ds).1.filter handles = (queued ds).filter isReply ∧
        (reading ends fails ds).2 = [] ↔
      Conclusive ends handles fails ds := by
  rw [filter_eq_filter_iff onlyReplies (reading_sublist ends fails ds), and_right_comm,
    reading_replies_iff]
  constructor
  · rintro ⟨⟨last, silent, lasts⟩, handled⟩
    exact ⟨last, silent, lasts, handled⟩
  · rintro ⟨last, silent, lasts, handled⟩
    exact ⟨⟨last, silent, lasts⟩, handled⟩

/-! ## Loops that read -/

/-- The body of a loop ends it with the ending messages only, and records the messages it
handles. -/
structure Records {σ ρ : Type} (record : σ → Bytes → Control σ ρ) (log : σ → List Bytes)
    (logOf : ρ → List Bytes) (ends handles good : Bytes → Bool) : Prop where
  goesOn : ∀ s m, good m = true → ends m = false →
    ∃ s', record s m = .next s' ∧ log s' = log s ++ [m].filter handles
  isOver : ∀ s m, good m = true → ends m = true →
    (∃ s', record s m = .stop s' ∧ log s' = log s ++ [m].filter handles) ∨
      ∃ r, record s m = .done r ∧ logOf r = log s ++ [m].filter handles

/-- The messages that were handled when receiving ended. -/
def Reception.log {σ ρ : Type} (log : σ → List Bytes) (logOf : ρ → List Bytes) :
    Reception σ ρ → List Bytes
  | .stopped s _ => log s
  | .returned r _ => logOf r
  | .waiting s => log s

/-- The datagrams that are left when receiving ended. -/
def Reception.left {σ ρ : Type} : Reception σ ρ → List Datagram
  | .stopped _ left => left
  | .returned _ left => left
  | .waiting _ => []

section Loops

variable {σ ρ : Type} {record : σ → Bytes → Control σ ρ} {log : σ → List Bytes}
  {logOf : ρ → List Bytes} {ends handles good : Bytes → Bool}

/-- A walk without an ending message is run to its end. -/
theorem Records.foldUntil_ran (records : Records record log logOf ends handles good) (s : σ)
    {ms : List Bytes} (allGood : ∀ m ∈ ms, good m = true) (none : ms.any ends = false) :
    ∃ s', foldUntil record s ms = .ran s' ∧ log s' = log s ++ ms.filter handles := by
  induction ms generalizing s with
  | nil => exact ⟨s, rfl, by simp⟩
  | cons m ms ih =>
      rw [List.any_cons, Bool.or_eq_false_iff] at none
      obtain ⟨s', next, logged⟩ := records.goesOn s m (allGood m (by simp)) none.1
      obtain ⟨s'', ran, logged'⟩ := ih s' (fun m' member => allGood m' (by simp [member])) none.2
      refine ⟨s'', by rw [foldUntil, next]; exact ran, ?_⟩
      rw [logged', logged, List.append_assoc, ← List.filter_append, List.singleton_append]

/-- A walk with an ending message is left at the first. -/
theorem Records.foldUntil_ended (records : Records record log logOf ends handles good) (s : σ)
    {ms : List Bytes} (allGood : ∀ m ∈ ms, good m = true) (some : ms.any ends = true) :
    (∃ s', foldUntil record s ms = .stopped s' ∧
        log s' = log s ++ (upTo ends ms).filter handles) ∨
      ∃ r, foldUntil record s ms = .done r ∧
        logOf r = log s ++ (upTo ends ms).filter handles := by
  induction ms generalizing s with
  | nil => cases some
  | cons m ms ih =>
      have goodM := allGood m (by simp)
      cases isEnd : ends m with
      | true =>
          rw [foldUntil, upTo, if_pos isEnd]
          rcases records.isOver s m goodM isEnd with ⟨s', stop, logged⟩ | ⟨r, done, logged⟩
          · exact .inl ⟨s', by rw [stop], logged⟩
          · exact .inr ⟨r, by rw [done], logged⟩
      | false =>
          rw [List.any_cons, isEnd, Bool.false_or] at some
          obtain ⟨s', next, logged⟩ := records.goesOn s m goodM isEnd
          have rest := ih s' (fun m' member => allGood m' (by simp [member])) some
          rw [logged, List.append_assoc, ← List.filter_append, List.singleton_append] at rest
          rw [foldUntil, next, upTo, isEnd, if_neg Bool.false_ne_true]
          exact rest

/-- **A receive loop handles what it reads and leaves the rest.** -/
theorem Records.receiveMessages (records : Records record log logOf ends handles good)
    {failed : σ → ρ} (failing : ∀ s, logOf (failed s) = log s) {ds : List Datagram}
    (stopAtEmpty : Bool) (nonempty : ∀ d ∈ ds, d.bytes ≠ [])
    (allGood : ∀ d ∈ ds, ∀ m ∈ d.messages, good m = true) (fails : Option Nat) (s : σ) :
    (receiveMessages record failed stopAtEmpty ds fails s).log log logOf =
        log s ++ (reading ends fails ds).1.filter handles ∧
      (receiveMessages record failed stopAtEmpty ds fails s).left = (reading ends fails ds).2 := by
  induction ds generalizing fails s with
  | nil =>
      rw [Netlink.receiveMessages, reading]
      split
      · exact ⟨by simp [Reception.log, failing], rfl⟩
      · exact ⟨by simp [Reception.log], rfl⟩
  | cons d ds ih =>
      rw [Netlink.receiveMessages, reading]
      by_cases failsNow : fails = some 0
      · rw [if_pos failsNow, if_pos failsNow]
        exact ⟨by simp [Reception.log, failing], rfl⟩
      have notEmpty : ¬(stopAtEmpty = true ∧ d.bytes = []) := fun both =>
        nonempty d (by simp) both.2
      rw [if_neg failsNow, if_neg failsNow, if_neg notEmpty]
      cases isEnd : d.messages.any ends with
      | true =>
          rw [if_pos rfl]
          rcases records.foldUntil_ended s (allGood d (by simp)) isEnd with
            ⟨s', stopped, logged⟩ | ⟨r, done, logged⟩
          · rw [stopped]
            exact ⟨logged, rfl⟩
          · rw [done]
            exact ⟨logged, rfl⟩
      | false =>
          rw [if_neg Bool.false_ne_true]
          obtain ⟨s', ran, logged⟩ := records.foldUntil_ran s (allGood d (by simp)) isEnd
          have rest := ih (fun d' member => nonempty d' (by simp [member]))
            (fun d' member => allGood d' (by simp [member])) (fails.map (· - 1)) s'
          rw [ran]
          refine ⟨rest.1.trans ?_, rest.2⟩
          rw [logged, List.append_assoc, ← List.filter_append]

end Loops

/-! ## Loops that end -/

/-- The datagrams that are received before `recv` fails. -/
def received (fails : Option Nat) (ds : List Datagram) : List Datagram :=
  match fails with
  | none => ds
  | some n => ds.take n

theorem received_sublist (fails : Option Nat) (ds : List Datagram) :
    (received fails ds).Sublist ds := by
  cases fails with
  | none => exact .refl ds
  | some n => exact List.take_sublist n ds

theorem received_cons {fails : Option Nat} (later : fails ≠ some 0) (d : Datagram)
    (ds : List Datagram) :
    received fails (d :: ds) = d :: received (fails.map (· - 1)) ds := by
  cases fails with
  | none => rfl
  | some n =>
      obtain ⟨n, rfl⟩ := Nat.exists_eq_succ_of_ne_zero fun zero => later (zero ▸ rfl)
      rfl

/-- The body of a loop ends it with the ending messages only, and a result it returns with
then has a property. -/
structure EndsAt {σ ρ : Type} (body : Mem → σ → Nat → Control σ ρ) (ends : Bytes → Bool)
    (good : Bytes → Prop) (result : ρ → Prop) : Prop where
  goesOn : ∀ (buf : Mem) (s : σ) (a : Nat), 16 ≤ nlmsg.declaredAt buf a →
    nlmsg.declaredAt buf a ≤ 65536 → good (nlmsg.recordAt buf a) →
      ends (nlmsg.recordAt buf a) = false → ∃ s', body buf s a = .next s'
  isOver : ∀ (buf : Mem) (s : σ) (a : Nat), 16 ≤ nlmsg.declaredAt buf a →
    nlmsg.declaredAt buf a ≤ 65536 → good (nlmsg.recordAt buf a) →
      ends (nlmsg.recordAt buf a) = true →
        (∃ s', body buf s a = .stop s') ∨ ∃ r, body buf s a = .done r ∧ result r

namespace EndsAt

variable {σ ρ : Type} {body : Mem → σ → Nat → Control σ ρ} {ends : Bytes → Bool}
  {good : Bytes → Prop} {result : ρ → Prop}

/-- A walk is left when it comes to an ending message. -/
theorem foldUntil (endsAt : EndsAt body ends good result) (buf : Mem) {xs : List Nat}
    (read : ∀ a ∈ xs, 16 ≤ nlmsg.declaredAt buf a ∧ nlmsg.declaredAt buf a ≤ 65536 ∧
      good (nlmsg.recordAt buf a)) (s : σ) :
    ((xs.map (nlmsg.recordAt buf)).any ends = true →
        (∃ s', Ykern.foldUntil (body buf) s xs = .stopped s') ∨
          ∃ r, Ykern.foldUntil (body buf) s xs = .done r ∧ result r) ∧
      ((xs.map (nlmsg.recordAt buf)).any ends = false →
        ∃ s', Ykern.foldUntil (body buf) s xs = .ran s') := by
  induction xs generalizing s with
  | nil =>
      refine ⟨?_, fun _ => ⟨s, rfl⟩⟩
      intro never
      cases never
  | cons a xs ih =>
      obtain ⟨covers, short, isGood⟩ := read a (by simp)
      have later := ih fun a' member => read a' (by simp [member])
      rw [List.map_cons, List.any_cons, Ykern.foldUntil]
      cases isEnd : ends (nlmsg.recordAt buf a) with
      | false =>
          obtain ⟨s', next⟩ := endsAt.goesOn buf s a covers short isGood isEnd
          rw [next, Bool.false_or]
          exact later s'
      | true =>
          constructor
          · intro _
            rcases endsAt.isOver buf s a covers short isGood isEnd with ⟨s', stop⟩ | ⟨r, done, has⟩
            · rw [stop]
              exact .inl ⟨s', rfl⟩
            · rw [done]
              exact .inr ⟨r, rfl, has⟩
          · intro never
            cases never

/-- The walk over a datagram is left when it has an ending message. -/
theorem walk (endsAt : EndsAt body ends good result) {a : Arrival}
    (allGood : ∀ m ∈ a.datagram.messages, good m) (s : σ) :
    (a.datagram.messages.any ends = true →
        (∃ s', Ykern.foldUntil (body a.buf) s (nlmsg.walk a.buf 0 a.datagram.bytes.length) =
            .stopped s') ∨
          ∃ r, Ykern.foldUntil (body a.buf) s (nlmsg.walk a.buf 0 a.datagram.bytes.length) =
            .done r ∧ result r) ∧
      (a.datagram.messages.any ends = false →
        ∃ s', Ykern.foldUntil (body a.buf) s (nlmsg.walk a.buf 0 a.datagram.bytes.length) =
          .ran s') := by
  have read : ∀ p ∈ nlmsg.walk a.buf 0 a.datagram.bytes.length,
      16 ≤ nlmsg.declaredAt a.buf p ∧ nlmsg.declaredAt a.buf p ≤ 65536 ∧
        good (nlmsg.recordAt a.buf p) := by
    intro p member
    obtain ⟨covers, short, visited⟩ := Datagram.mem_walk member
    exact ⟨covers, short, allGood _ visited⟩
  have walked := endsAt.foldUntil a.buf read s
  rwa [a.walk_messages] at walked

/-- **A loop is over exactly when it receives an ending message.** -/
theorem receiveArrivals (endsAt : EndsAt body ends good result) (failed : σ → ρ)
    {arrivals : List Arrival} {fails : Option Nat}
    (allGood : ∀ m ∈ queued (received fails (arrivals.map Arrival.datagram)), good m) (s : σ) :
    ((queued (received fails (arrivals.map Arrival.datagram))).any ends = true →
        (∃ s' left, Netlink.receiveArrivals body failed arrivals fails s = .stopped s' left) ∨
          ∃ r left, Netlink.receiveArrivals body failed arrivals fails s = .returned r left ∧
            result r) ∧
      ((queued (received fails (arrivals.map Arrival.datagram))).any ends = false →
        ((∃ n, fails = some n ∧ n ≤ arrivals.length) →
          ∃ s' left,
            Netlink.receiveArrivals body failed arrivals fails s = .returned (failed s') left) ∧
        ((∀ n, fails = some n → arrivals.length < n) →
          ∃ s', Netlink.receiveArrivals body failed arrivals fails s = .waiting s')) := by
  induction arrivals generalizing fails s with
  | nil =>
      rw [Netlink.receiveArrivals, List.map_nil]
      have nothing : queued (received fails []) = [] := by cases fails <;> simp [received]
      rw [nothing]
      refine ⟨?_, fun _ => ⟨?_, ?_⟩⟩
      · intro never
        cases never
      · rintro ⟨n, rfl, zero⟩
        rw [if_pos (congrArg some (Nat.le_zero.mp zero))]
        exact ⟨s, _, rfl⟩
      · intro lasts
        rw [if_neg fun zero => Nat.lt_irrefl 0 (lasts 0 zero)]
        exact ⟨s, rfl⟩
  | cons a arrivals ih =>
      rw [Netlink.receiveArrivals, List.map_cons]
      by_cases failsNow : fails = some 0
      · rw [if_pos failsNow, failsNow]
        refine ⟨?_, fun _ => ⟨fun _ => ⟨s, _, rfl⟩, ?_⟩⟩
        · intro never
          cases never
        · intro lasts
          exact absurd (lasts 0 rfl) (Nat.not_lt_zero _)
      rw [List.map_cons, received_cons failsNow, queued_cons] at allGood
      rw [if_neg failsNow, received_cons failsNow, queued_cons, List.any_append]
      have walked := endsAt.walk (fun m member => allGood m (List.mem_append_left _ member)) s
      cases isEnd : a.datagram.messages.any ends with
      | true =>
          constructor
          · intro _
            rcases walked.1 isEnd with ⟨s', stopped⟩ | ⟨r, done, has⟩
            · rw [stopped]
              exact .inl ⟨s', _, rfl⟩
            · rw [done]
              exact .inr ⟨r, _, rfl, has⟩
          · intro never
            cases never
      | false =>
          obtain ⟨s', ran⟩ := walked.2 isEnd
          have rest := ih (fun m member => allGood m (List.mem_append_right _ member)) s'
          rw [ran, Bool.false_or]
          refine ⟨rest.1, fun none => ⟨?_, ?_⟩⟩
          · rintro ⟨n, failsLater, within⟩
            refine (rest.2 none).1 ⟨n - 1, by rw [failsLater]; rfl, ?_⟩
            rw [List.length_cons] at within
            omega
          · intro lasts
            refine (rest.2 none).2 ?_
            intro n failsLater
            obtain ⟨n', failsNext, rfl⟩ := Option.map_eq_some_iff.mp failsLater
            have left := lasts n' failsNext
            rw [List.length_cons] at left
            omega

end EndsAt

end Ykern.Netlink
